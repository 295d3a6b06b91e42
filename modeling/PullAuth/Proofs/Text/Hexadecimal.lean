import Mathlib.Algebra.Group.Nat.Defs
import PullAuth.Bytes.Basic

/-!
Numbers in hexadecimal digits. The digits are read back (`hexValue_ofHex`), so different numbers
have different spellings, and a number that is small enough has exactly as many digits as are asked
for (`length_ofHex`). The same holds for the bytes of the digits (`ofAscii_ofHex_injective`).
-/
namespace PullAuth.Text

/-- The number that hexadecimal digits write. -/
def hexValue (ds : Text) : Nat := ds.foldl (fun n d => 16 * n + d.hexValue?.getD 0) 0

theorem hexValue_concat (ds : Text) (d : CodePoint) :
    hexValue (ds ++ [d]) = 16 * hexValue ds + d.hexValue?.getD 0 := by
  rw [hexValue, List.foldl_append]
  rfl

/-- The digits of a number, without zeros in front. -/
def hexDigits (n : Nat) : Text := (Nat.toDigits 16 n).map .ofChar

theorem hexDigits_of_lt {n : Nat} (h : n < 16) : hexDigits n = [.hexDigit n] := by
  rw [hexDigits, Nat.toDigits_of_lt_base h]
  rfl

theorem hexDigits_of_le {n : Nat} (h : 16 ≤ n) :
    hexDigits n = hexDigits (n / 16) ++ [.hexDigit (n % 16)] := by
  rw [hexDigits, Nat.toDigits_of_base_le (by decide) h, List.map_append]
  rfl

theorem hexDigits_ne_nil (n : Nat) : hexDigits n ≠ [] := by
  by_cases h : n < 16
  · simp [hexDigits_of_lt h]
  · simp [hexDigits_of_le (Nat.le_of_not_lt h)]

theorem hexValue_hexDigits (n : Nat) : hexValue (hexDigits n) = n := by
  -- The digits in front of the last one are those of a smaller number.
  induction n using Nat.strongRecOn with
  | ind n ih =>
    by_cases h : n < 16
    · rw [hexDigits_of_lt h, ← List.nil_append [CodePoint.hexDigit n], hexValue_concat,
        Bytes.hexValue?_hexDigit n h]
      show 16 * 0 + n = n
      omega
    · have smaller : n / 16 < n := by omega
      have last : (CodePoint.hexDigit (n % 16)).hexValue? = some (n % 16) :=
        Bytes.hexValue?_hexDigit (n % 16) (by omega)
      calc hexValue (hexDigits n)
          = hexValue (hexDigits (n / 16) ++ [.hexDigit (n % 16)]) := by
            rw [hexDigits_of_le (by omega)]
        _ = 16 * (n / 16) + n % 16 := by rw [hexValue_concat, ih _ smaller, last]; rfl
        _ = n := by omega

theorem exists_of_mem_hexDigits {n : Nat} {c : CodePoint} (h : c ∈ hexDigits n) :
    ∃ d < 16, c = .hexDigit d := by
  induction n using Nat.strongRecOn with
  | ind n ih =>
    by_cases hn : n < 16
    · rw [hexDigits_of_lt hn, List.mem_singleton] at h
      exact ⟨n, hn, h⟩
    · have smaller : n / 16 < n := by omega
      rw [hexDigits_of_le (by omega), List.mem_append, List.mem_singleton] at h
      rcases h with h | h
      · exact ih _ smaller h
      · exact ⟨n % 16, by omega, h⟩

/-! ## Digits with zeros in front -/

theorem ofHex_eq (width n : Nat) :
    ofHex width n =
      List.replicate (width - (hexDigits n).length) (.hexDigit 0) ++ hexDigits n := rfl

/-- Zeros in front make no difference. -/
theorem hexValue_ofHex (width n : Nat) : hexValue (ofHex width n) = n := by
  have zeros (k : Nat) : (List.replicate k (CodePoint.hexDigit 0)).foldl
      (fun n d => 16 * n + d.hexValue?.getD 0) 0 = 0 := by
    induction k with
    | zero => rfl
    | succ k ih => exact ih
  rw [ofHex_eq, hexValue, List.foldl_append, zeros]
  exact hexValue_hexDigits n

theorem ofHex_injective {width m n : Nat} (h : ofHex width m = ofHex width n) : m = n := by
  calc m = hexValue (ofHex width m) := (hexValue_ofHex width m).symm
    _ = hexValue (ofHex width n) := by rw [h]
    _ = n := hexValue_ofHex width n

theorem length_ofHex {width n : Nat} (hw : 0 < width) (hn : n < 16 ^ width) :
    (ofHex width n).length = width := by
  have fits : (hexDigits n).length ≤ width := by
    rw [hexDigits, List.length_map]
    exact (Nat.length_toDigits_le_iff (by decide) hw).2 hn
  rw [ofHex_eq, List.length_append, List.length_replicate]
  omega

theorem exists_of_mem_ofHex {width n : Nat} {c : CodePoint} (h : c ∈ ofHex width n) :
    ∃ d < 16, c = .hexDigit d := by
  rw [ofHex_eq, List.mem_append] at h
  rcases h with h | h
  · exact ⟨0, by decide, List.eq_of_mem_replicate h⟩
  · exact exists_of_mem_hexDigits h

/-- The spelling of bytes is made of the sixteen digits, too. -/
theorem exists_of_mem_toHex {bs : Bytes} {c : CodePoint} (h : c ∈ Bytes.toHex bs) :
    ∃ d < 16, c = .hexDigit d := by
  rw [Bytes.toHex, List.mem_flatMap] at h
  obtain ⟨b, -, hc⟩ := h
  have small := b.toNat_lt
  rcases List.mem_cons.1 hc with hc | hc
  · exact ⟨b.toNat / 16, by omega, hc⟩
  · exact ⟨b.toNat % 16, by omega, List.mem_singleton.1 hc⟩

/-! ## Bytes of digits -/

theorem hexDigit_lt : ∀ d < 16, (CodePoint.hexDigit d).toNat < 0x80 := by decide

theorem lt_of_mem_ofHex {width n : Nat} {c : CodePoint} (h : c ∈ ofHex width n) :
    c.toNat < 0x80 := by
  obtain ⟨d, hd, rfl⟩ := exists_of_mem_ofHex h
  exact hexDigit_lt d hd

theorem lt_of_mem_toHex {bs : Bytes} {c : CodePoint} (h : c ∈ Bytes.toHex bs) :
    c.toNat < 0x80 := by
  obtain ⟨d, hd, rfl⟩ := exists_of_mem_toHex h
  exact hexDigit_lt d hd

/-- A text of ASCII is read back from its bytes. -/
theorem ofByte_ofAscii {t : Text} (h : ∀ c ∈ t, c.toNat < 0x80) :
    (Bytes.ofAscii t).map CodePoint.ofByte = t := by
  induction t with
  | nil => rfl
  | cons c t ih =>
    have first : CodePoint.ofByte (.ofNat c.toNat) = c := by
      have small := h c List.mem_cons_self
      obtain ⟨n, hn⟩ := c
      have : n % 256 = n := by
        simp only at small
        omega
      simp [CodePoint.ofByte, this]
    rw [Bytes.ofAscii, List.map_cons, List.map_cons, first]
    exact congrArg (c :: ·) (ih fun d hd => h d (List.mem_cons_of_mem c hd))

/-- Texts of ASCII differ in their bytes. -/
theorem eq_of_ofAscii {s t : Text} (hs : ∀ c ∈ s, c.toNat < 0x80) (ht : ∀ c ∈ t, c.toNat < 0x80)
    (h : Bytes.ofAscii s = Bytes.ofAscii t) : s = t := by
  calc s = (Bytes.ofAscii s).map CodePoint.ofByte := (ofByte_ofAscii hs).symm
    _ = (Bytes.ofAscii t).map CodePoint.ofByte := by rw [h]
    _ = t := ofByte_ofAscii ht

theorem ofAscii_ofHex_injective {width m n : Nat}
    (h : Bytes.ofAscii (ofHex width m) = Bytes.ofAscii (ofHex width n)) : m = n := by
  apply @ofHex_injective width
  exact eq_of_ofAscii (fun _ => lt_of_mem_ofHex) (fun _ => lt_of_mem_ofHex) h

end PullAuth.Text
