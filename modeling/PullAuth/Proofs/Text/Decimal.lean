import Mathlib.Data.List.Induction
import Mathlib.Tactic.Ring
import PullAuth.Text.Lemmas

/-!
Numbers in decimal digits. The digits are read back (`digitsValue_ofNat`), a number other than zero
does not begin with one (`head?_ofNat`), and zeros behind digits multiply what they write by powers
of ten (`digitsValue_append`).
-/
namespace PullAuth

theorem CodePoint.ne_of_isDigit {c d : CodePoint} (hd : d.isDigit = true)
    (hc : c.isDigit = false) : d ≠ c := by
  rintro rfl
  rw [hd] at hc
  cases hc

namespace Text

/-- A text of decimal digits. -/
def IsDigits (ds : Text) : Prop := ∀ c ∈ ds, c.isDigit = true

theorem IsDigits.append {ds es : Text} (hd : ds.IsDigits) (he : es.IsDigits) :
    (ds ++ es).IsDigits := by
  intro c hc
  rcases List.mem_append.1 hc with hc | hc
  · exact hd c hc
  · exact he c hc

theorem isDigits_zeros (k : Nat) : IsDigits (List.replicate k (.ofChar '0')) := by
  intro c hc
  rw [List.eq_of_mem_replicate hc]
  decide

/-! ## What digits write -/

theorem digitsValue_concat (ds : Text) (d : CodePoint) :
    digitsValue (ds ++ [d]) = 10 * digitsValue ds + (d.toNat - 0x30) := by
  rw [digitsValue, List.foldl_append]
  rfl

theorem digitsValue_append (ds es : Text) :
    digitsValue (ds ++ es) = digitsValue ds * 10 ^ es.length + digitsValue es := by
  induction es using List.reverseRecOn with
  | nil =>
    rw [List.append_nil, List.length_nil, Nat.pow_zero, Nat.mul_one]
    rfl
  | append_singleton es e ih =>
    rw [← List.append_assoc, digitsValue_concat, ih, digitsValue_concat, List.length_append,
      List.length_singleton, Nat.pow_succ]
    ring

theorem digitsValue_zeros (k : Nat) : digitsValue (List.replicate k (.ofChar '0')) = 0 := by
  induction k with
  | zero => rfl
  | succ k ih =>
    rw [List.replicate_succ', digitsValue_concat, ih]
    rfl

theorem digitsValue_lt {ds : Text} (h : ds.IsDigits) : digitsValue ds < 10 ^ ds.length := by
  induction ds using List.reverseRecOn with
  | nil => decide
  | append_singleton ds d ih =>
    have before := ih fun c hc => h c (List.mem_append_left _ hc)
    have last := h d (List.mem_append_right _ (List.mem_singleton.2 rfl))
    simp only [CodePoint.isDigit, Bool.and_eq_true, decide_eq_true_eq] at last
    rw [digitsValue_concat, List.length_append, List.length_singleton, Nat.pow_succ]
    omega

/-! ## The digits of a number -/

/-- The digit of a number below ten. -/
def digit (n : Nat) : CodePoint := .ofChar (Nat.digitChar n)

theorem digit_cases : ∀ n < 10, (digit n).isDigit = true ∧ (digit n).toNat - 0x30 = n ∧
    (digit n = .ofChar '0' → n = 0) := by decide

theorem ofNat_of_lt {n : Nat} (h : n < 10) : ofNat n = [digit n] := by
  rw [ofNat, Nat.toDigits_of_lt_base h]
  rfl

theorem ofNat_of_le {n : Nat} (h : 10 ≤ n) : ofNat n = ofNat (n / 10) ++ [digit (n % 10)] := by
  rw [ofNat, Nat.toDigits_of_base_le (by decide) h, List.map_append]
  rfl

theorem length_ofNat (n : Nat) : (ofNat n).length = (Nat.toDigits 10 n).length :=
  List.length_map _

theorem ofNat_ne_nil (n : Nat) : ofNat n ≠ [] := by
  rw [ofNat, ne_eq, List.map_eq_nil_iff]
  exact Nat.toDigits_ne_nil

/-- The digits of a number are read back. -/
theorem digitsValue_ofNat (n : Nat) : digitsValue (ofNat n) = n := by
  -- The digits in front of the last one are those of a smaller number.
  induction n using Nat.strongRecOn with
  | ind n ih =>
    by_cases h : n < 10
    · rw [ofNat_of_lt h, ← List.nil_append [digit n], digitsValue_concat, (digit_cases n h).2.1]
      exact Nat.zero_add n
    · have last := (digit_cases (n % 10) (by omega)).2.1
      rw [ofNat_of_le (by omega), digitsValue_concat, ih (n / 10) (by omega), last]
      omega

theorem isDigits_ofNat (n : Nat) : (ofNat n).IsDigits := by
  induction n using Nat.strongRecOn with
  | ind n ih =>
    by_cases h : n < 10
    · rw [ofNat_of_lt h]
      intro c hc
      rw [List.mem_singleton.1 hc]
      exact (digit_cases n h).1
    · rw [ofNat_of_le (by omega)]
      refine (ih (n / 10) (by omega)).append fun c hc => ?_
      rw [List.mem_singleton.1 hc]
      exact (digit_cases (n % 10) (by omega)).1

/-- Only zero begins with a zero. -/
theorem head?_ofNat {n : Nat} (h : n ≠ 0) : (ofNat n).head? ≠ some (.ofChar '0') := by
  induction n using Nat.strongRecOn with
  | ind n ih =>
    by_cases hn : n < 10
    · rw [ofNat_of_lt hn]
      intro e
      exact h ((digit_cases n hn).2.2 (Option.some.inj e))
    · have before := ih (n / 10) (by omega) (by omega)
      rw [ofNat_of_le (by omega), List.head?_append]
      cases hd : (ofNat (n / 10)).head? with
      | none => exact absurd (List.head?_eq_none_iff.1 hd) (ofNat_ne_nil _)
      | some d =>
        rw [hd] at before
        exact before

end Text

end PullAuth
