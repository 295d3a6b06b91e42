import Mathlib.Data.List.TakeDrop
import PullAuth.Json.Printer
import PullAuth.Json.Reader
import PullAuth.Proofs.Number.Rounding
import PullAuth.Proofs.Text.Decimal

/-!
Numbers in JSON texts. `SpellsNumber` says that a text is the spelling of a number, which is then
read up to where it ends, and only such texts are read (`spells_of_readNumber`). A whole number is
spelled by its digits (`spellsNumber_ofInt`), unless it has more of them than are read
(`SpellsNumber.kind`). A finite double is spelled by its text (`spellsNumber_finite`), however the
shortest decimal is laid out: the digits and the power of ten that are read write the same number.
-/
namespace PullAuth.Json

/-- A text that does not go on with a number. -/
def EndsNumber (t : Text) : Prop :=
  ∀ c ∈ t.head?, c.isDigit = false ∧ c ≠ '.' ∧ c ≠ 'e' ∧ c ≠ 'E'

/-! ## Parts of a number -/

theorem spanDigits_append {ds rest : Text} (hd : ds.IsDigits)
    (hr : ∀ c ∈ rest.head?, c.isDigit = false) : spanDigits (ds ++ rest) = (ds, rest) := by
  have digits : (ds ++ rest).takeWhile CodePoint.isDigit =
      ds ++ rest.takeWhile CodePoint.isDigit := List.takeWhile_append_of_pos hd
  have behind : (ds ++ rest).dropWhile CodePoint.isDigit = rest.dropWhile CodePoint.isDigit :=
    List.dropWhile_append_of_pos hd
  rw [spanDigits, List.span_eq_takeWhile_dropWhile, digits, behind]
  cases rest with
  | nil => simp
  | cons c rest =>
    have stop := hr c rfl
    simp [stop]

/-- The digits before the point: they begin with a zero only if there is no other. -/
structure IsWhole (w : Text) : Prop where
  digits : w.IsDigits
  present : w ≠ []
  leading : w.head? = some (.ofChar '0') → w = [.ofChar '0']

theorem isWhole_ofNat (n : Nat) : IsWhole (Text.ofNat n) := by
  refine ⟨Text.isDigits_ofNat n, Text.ofNat_ne_nil n, fun h => ?_⟩
  by_cases hn : n = 0
  · rw [hn]
    rfl
  · exact absurd h (Text.head?_ofNat hn)

theorem readWhole_append {w rest : Text} (hw : IsWhole w)
    (hr : ∀ c ∈ rest.head?, c.isDigit = false) : readWhole (w ++ rest) = some (w, rest) := by
  obtain ⟨digits, present, leading⟩ := hw
  cases w with
  | nil => exact absurd rfl present
  | cons c w =>
    rw [List.cons_append, readWhole]
    by_cases hz : c = '0'
    · cases leading (congrArg some hz)
      rw [if_pos hz, hz]
      rfl
    · have first := digits c List.mem_cons_self
      have others := spanDigits_append (fun d hd => digits d (List.mem_cons_of_mem c hd)) hr
      rw [if_neg hz, if_pos first, others]

/-- A fraction, if there is one: digits behind a point. -/
inductive SpellsFraction : Text → Option Text → Prop
  | none : SpellsFraction [] none
  | some {ds : Text} : ds.IsDigits → ds ≠ [] → SpellsFraction (.ofChar '.' :: ds) (some ds)

theorem readFraction_append {t rest : Text} {fraction : Option Text}
    (h : SpellsFraction t fraction) (hr : ∀ c ∈ rest.head?, c.isDigit = false ∧ c ≠ '.') :
    readFraction (t ++ rest) = (fraction, rest) := by
  cases h with
  | none =>
    cases rest with
    | nil => rfl
    | cons c rest =>
      rw [List.nil_append, readFraction]
      exact if_neg (hr c rfl).2
  | @some ds digits present =>
    rw [List.cons_append, readFraction]
    simp only [if_true, spanDigits_append digits fun c hc => (hr c hc).1]

/-- The sign of a power of ten, which may be missing. -/
inductive SpellsSign : Text → Bool → Prop
  | none : SpellsSign [] false
  | plus : SpellsSign [.ofChar '+'] false
  | minus : SpellsSign [.ofChar '-'] true

/-- A power of ten, if there is one: a letter, a sign and digits. -/
inductive SpellsPower : Text → Option Int → Prop
  | none : SpellsPower [] none
  | some {letter : CodePoint} {sign ds : Text} {negative : Bool} :
    letter = 'e' ∨ letter = 'E' → SpellsSign sign negative → ds.IsDigits → ds ≠ [] →
    SpellsPower (letter :: (sign ++ ds))
      (some (if negative then -(Text.digitsValue ds : Int) else Text.digitsValue ds))

theorem readExponent_append {t rest : Text} {power : Option Int} (h : SpellsPower t power)
    (hr : EndsNumber rest) : readExponent (t ++ rest) = (power, rest) := by
  cases h with
  | none =>
    cases rest with
    | nil => rfl
    | cons c rest =>
      obtain ⟨-, -, he, hE⟩ := hr c rfl
      simp only [List.nil_append, readExponent, he, hE, decide_false, Bool.or_false,
        Bool.false_eq_true, if_false]
  | @some letter sign ds negative hl hs digits present =>
    have span := spanDigits_append digits fun c hc => (hr c hc).1
    have known : (decide (letter = .ofChar 'e') || decide (letter = .ofChar 'E')) = true := by
      rcases hl with rfl | rfl <;> decide
    obtain ⟨d, ds, rfl⟩ := List.exists_cons_of_ne_nil present
    rw [List.cons_append, List.append_assoc, readExponent.eq_def]
    simp only [known, if_true]
    cases hs with
    | none =>
      have digit := digits d List.mem_cons_self
      have no_minus : d ≠ '-' := CodePoint.ne_of_isDigit digit (by decide)
      have no_plus : d ≠ '+' := CodePoint.ne_of_isDigit digit (by decide)
      rw [List.cons_append] at span
      simp only [List.nil_append, List.cons_append, if_neg no_minus, if_neg no_plus, span]
    | plus =>
      have minus : (CodePoint.ofChar '+' = CodePoint.ofChar '-') = False := by decide
      simp only [List.cons_append, List.nil_append, minus, if_false, if_true]
      rw [← List.cons_append, span]
    | minus =>
      simp only [List.cons_append, List.nil_append, if_true]
      rw [← List.cons_append, span]

/-- What a power of ten begins with is neither a digit nor a point. -/
theorem SpellsPower.head? {t rest : Text} {power : Option Int} (h : SpellsPower t power)
    (hr : EndsNumber rest) : ∀ c ∈ (t ++ rest).head?, c.isDigit = false ∧ c ≠ '.' := by
  intro c hc
  cases h with
  | none => exact ⟨(hr c hc).1, (hr c hc).2.1⟩
  | some hl =>
    cases hc
    rcases hl with rfl | rfl <;> decide

/-- A power of ten as it is written. -/
theorem spellsPower_exponentText (e : Int) : SpellsPower (Double.exponentText e) (some e) := by
  let ds := Text.ofNat e.natAbs
  let padded := List.replicate (2 - ds.length) (CodePoint.ofChar '0') ++ ds
  have digits : Text.IsDigits padded := (Text.isDigits_zeros _).append (Text.isDigits_ofNat _)
  have value : Text.digitsValue padded = e.natAbs := by
    rw [Text.digitsValue_append, Text.digitsValue_zeros, Nat.zero_mul, Nat.zero_add,
      Text.digitsValue_ofNat]
  have present : padded ≠ [] := List.append_ne_nil_of_right_ne_nil _ (Text.ofNat_ne_nil _)
  have spelled {sign : Text} {negative : Bool} (hs : SpellsSign sign negative) :
      SpellsPower (.ofChar 'e' :: (sign ++ padded))
        (some (if negative then -(e.natAbs : Int) else e.natAbs)) :=
    value ▸ .some (.inl rfl) hs digits present
  by_cases h : e < 0
  · have number : (if true then -(e.natAbs : Int) else e.natAbs) = e := by
      rw [if_pos rfl]
      omega
    have text := spelled .minus
    rw [number] at text
    rw [Double.exponentText, if_pos h]
    exact text
  · have number : (if false then -(e.natAbs : Int) else (e.natAbs : Int)) = e := by
      rw [if_neg Bool.false_ne_true]
      omega
    have text := spelled .plus
    rw [number] at text
    rw [Double.exponentText, if_neg h]
    exact text

/-! ## Whole numbers and doubles -/

/-- The number of which the parts were read. -/
def numberOf (negative : Bool) (whole : Text) (fraction : Option Text) (power : Option Int) :
    Option Json :=
  match fraction, power with
  | none, none =>
    if whole.length > wholeDigitLimit then none
    else
      let n : Int := Text.digitsValue whole
      some (int (if negative then -n else n))
  | _, _ =>
    let ds := fraction.getD []
    some (double (.ofDecimal negative (Text.digitsValue (whole ++ ds))
      (power.getD 0 - ds.length)))

/-- The text behind a minus sign, if there is one. -/
def behindSign (t : Text) : Text := if t.head? = some (.ofChar '-') then t.tail else t

theorem readNumber_eq (t : Text) :
    readNumber t = (readWhole (behindSign t)).bind fun (whole, rest) =>
      (numberOf (decide (t.head? = some (.ofChar '-'))) whole (readFraction rest).1
        (readExponent (readFraction rest).2).1).map
          (·, (readExponent (readFraction rest).2).2) := by
  unfold readNumber
  split
  next negative digits sign =>
  have known : negative = decide (t.head? = some (.ofChar '-')) ∧ digits = behindSign t := by
    cases t with
    | nil =>
      cases sign
      exact ⟨rfl, rfl⟩
    | cons c rest =>
      by_cases h : c = .ofChar '-'
      · simp only [if_pos h] at sign
        cases sign
        simp [behindSign, h]
      · simp only [if_neg h] at sign
        cases sign
        simp [behindSign, h]
  rw [known.1, known.2]
  cases readWhole (behindSign t) with
  | none => rfl
  | some found =>
    obtain ⟨whole, rest⟩ := found
    simp only [Option.bind_eq_bind, Option.bind_some, numberOf]
    cases readFraction rest with
    | mk fraction behind =>
      cases readExponent behind with
      | mk power last =>
        cases fraction <;> cases power <;> simp only <;> try rfl
        split <;> rfl

def signText (negative : Bool) : Text := if negative then [.ofChar '-'] else []

/-- `t` is a spelling of the number `v`: perhaps a minus sign, the digits before the point, and then
there may be a fraction and a power of ten. -/
inductive SpellsNumber : Text → Json → Prop
  | parts {negative : Bool} {whole fractionText powerText : Text} {fraction : Option Text}
    {power : Option Int} {v : Json} : IsWhole whole → SpellsFraction fractionText fraction →
    SpellsPower powerText power → numberOf negative whole fraction power = some v →
    SpellsNumber (signText negative ++ (whole ++ (fractionText ++ powerText))) v

/-- A number is read up to where it ends. -/
theorem SpellsNumber.readNumber {t rest : Text} {v : Json} (h : SpellsNumber t v)
    (hr : EndsNumber rest) : Json.readNumber (t ++ rest) = some (v, rest) := by
  cases h with
  | @parts negative whole fractionText powerText fraction power _ hw hf hp value =>
  obtain ⟨c, w, rfl⟩ := List.exists_cons_of_ne_nil hw.present
  have no_sign : c ≠ '-' :=
    CodePoint.ne_of_isDigit (hw.digits c List.mem_cons_self) (by decide)
  have behind := hp.head? hr
  have after_whole : ∀ d ∈ (fractionText ++ (powerText ++ rest)).head?, d.isDigit = false := by
    intro d hd
    cases hf with
    | none => exact (behind d hd).1
    | some =>
      cases hd
      decide
  have text : signText negative ++ (c :: w ++ (fractionText ++ powerText)) ++ rest =
      signText negative ++ (c :: w ++ (fractionText ++ (powerText ++ rest))) := by
    simp only [List.append_assoc]
  have sign : decide ((signText negative ++ (c :: w ++ (fractionText ++
      (powerText ++ rest)))).head? = some (.ofChar '-')) = negative ∧
      behindSign (signText negative ++ (c :: w ++ (fractionText ++ (powerText ++ rest)))) =
        c :: w ++ (fractionText ++ (powerText ++ rest)) := by
    rw [behindSign]
    cases negative <;> simp [signText, no_sign]
  rw [text, readNumber_eq, sign.1, sign.2, readWhole_append hw after_whole, Option.bind_some]
  simp only [readFraction_append hf behind, readExponent_append hp hr, value, Option.map_some]

/-- A number begins with a digit, perhaps behind a minus sign. -/
theorem SpellsNumber.head {t : Text} {v : Json} (h : SpellsNumber t v) :
    ∃ d t', d.isDigit = true ∧ (t = d :: t' ∨ t = .ofChar '-' :: d :: t') := by
  cases h with
  | @parts negative whole fractionText powerText fraction power _ hw hf hp value =>
  obtain ⟨d, w, rfl⟩ := List.exists_cons_of_ne_nil hw.present
  refine ⟨d, w ++ (fractionText ++ powerText), hw.digits d List.mem_cons_self, ?_⟩
  cases negative
  · exact .inl rfl
  · exact .inr rfl

/-- A whole number with few enough digits is read back. -/
theorem spellsNumber_ofInt {n : Int}
    (hn : (Nat.toDigits 10 n.natAbs).length ≤ wholeDigitLimit) :
    SpellsNumber (Text.ofInt n) (int n) := by
  have short : ¬(Text.ofNat n.natAbs).length > wholeDigitLimit := by
    rw [Text.length_ofNat]
    omega
  have spelled (negative : Bool) : SpellsNumber (signText negative ++ Text.ofNat n.natAbs)
      (int (if negative then -(n.natAbs : Int) else n.natAbs)) := by
    have value : numberOf negative (Text.ofNat n.natAbs) none none =
        some (int (if negative then -(n.natAbs : Int) else n.natAbs)) := by
      simp only [numberOf, if_neg short, Text.digitsValue_ofNat]
    have number := SpellsNumber.parts (isWhole_ofNat n.natAbs) .none .none value
    rwa [List.append_nil, List.append_nil] at number
  cases n with
  | ofNat n => exact spelled false
  | negSucc n => exact spelled true

/-! ## What is read -/

theorem append_of_spanDigits {t ds rest : Text} (h : spanDigits t = (ds, rest)) :
    t = ds ++ rest ∧ ds.IsDigits := by
  rw [spanDigits, List.span_eq_takeWhile_dropWhile] at h
  cases h
  exact ⟨List.takeWhile_append_dropWhile.symm, List.all_eq_true.1 List.all_takeWhile⟩

theorem append_of_readWhole {t whole rest : Text} (h : readWhole t = some (whole, rest)) :
    t = whole ++ rest ∧ IsWhole whole := by
  cases t with
  | nil => cases h
  | cons c t =>
    rw [readWhole] at h
    split at h
    · next zero =>
      cases h
      rw [zero]
      exact ⟨rfl, isWhole_ofNat 0⟩
    next zero =>
    split at h
    · next digit =>
      cases hs : spanDigits t with
      | mk ds behind =>
        rw [hs] at h
        cases h
        obtain ⟨rfl, digits⟩ := append_of_spanDigits hs
        refine ⟨rfl, List.forall_mem_cons.2 ⟨digit, digits⟩, List.cons_ne_nil _ _, ?_⟩
        intro first
        exact absurd (Option.some.inj first) zero
    · cases h

theorem spells_of_readFraction {t rest : Text} {fraction : Option Text}
    (h : readFraction t = (fraction, rest)) : ∃ s, t = s ++ rest ∧ SpellsFraction s fraction := by
  unfold readFraction at h
  split at h
  · next c behind =>
    split at h
    · next point =>
      split at h
      · cases h
        exact ⟨[], rfl, .none⟩
      · next ds last present hs =>
        cases h
        obtain ⟨rfl, digits⟩ := append_of_spanDigits hs
        exact ⟨_, by rw [point]; rfl, .some digits present⟩
    · cases h
      exact ⟨[], rfl, .none⟩
  · cases h
    exact ⟨[], rfl, .none⟩

theorem spells_of_readExponent {t rest : Text} {power : Option Int}
    (h : readExponent t = (power, rest)) : ∃ s, t = s ++ rest ∧ SpellsPower s power := by
  unfold readExponent at h
  split at h
  · next c behind =>
    split at h
    · next letter =>
      split at h
      next negative digits hd =>
      have sign : ∃ sign, behind = sign ++ digits ∧ SpellsSign sign negative := by
        split at hd
        · next s r =>
          split at hd
          · next minus =>
            cases hd
            exact ⟨_, by rw [minus]; rfl, .minus⟩
          split at hd
          · next plus =>
            cases hd
            exact ⟨_, by rw [plus]; rfl, .plus⟩
          · cases hd
            exact ⟨[], rfl, .none⟩
        · cases hd
          exact ⟨[], rfl, .none⟩
      split at h
      · cases h
        exact ⟨[], rfl, .none⟩
      · next ds last present hs =>
        cases h
        obtain ⟨rfl, ds_digits⟩ := append_of_spanDigits hs
        obtain ⟨sign, rfl, spelled⟩ := sign
        simp only [Bool.or_eq_true, decide_eq_true_eq] at letter
        exact ⟨c :: (sign ++ ds), by simp, .some letter spelled ds_digits present⟩
    · cases h
      exact ⟨[], rfl, .none⟩
  · cases h
    exact ⟨[], rfl, .none⟩

theorem signText_append_behindSign (t : Text) :
    t = signText (decide (t.head? = some (.ofChar '-'))) ++ behindSign t := by
  unfold behindSign
  by_cases h : t.head? = some (.ofChar '-')
  · obtain ⟨rest, rfl⟩ := List.head?_eq_some_iff.1 h
    simp [signText]
  · simp [signText, h]

/-- A number that was read is spelled by the text in front of the rest. -/
theorem spells_of_readNumber {t rest : Text} {v : Json} (h : readNumber t = some (v, rest)) :
    ∃ s, t = s ++ rest ∧ SpellsNumber s v := by
  rw [readNumber_eq] at h
  obtain ⟨⟨whole, behind⟩, hw, h⟩ := Option.bind_eq_some_iff.1 h
  obtain ⟨_, value, e⟩ := Option.map_eq_some_iff.1 h
  cases e
  obtain ⟨after_sign, is_whole⟩ := append_of_readWhole hw
  obtain ⟨fraction, after_whole, hf⟩ := spells_of_readFraction (Prod.eta (readFraction behind)).symm
  obtain ⟨power, after_fraction, hp⟩ :=
    spells_of_readExponent (Prod.eta (readExponent (readFraction behind).2)).symm
  refine ⟨_, ?_, .parts is_whole hf hp value⟩
  calc t = _ ++ behindSign t := signText_append_behindSign t
    _ = _ ++ (whole ++ (fraction ++ (power ++ _))) := by
      rw [after_sign, ← after_fraction, ← after_whole]
    _ = _ := by simp only [List.append_assoc]

theorem natAbs_signed (negative : Bool) (n : Nat) :
    (if negative then -(n : Int) else (n : Int)).natAbs = n := by
  split <;> omega

/-- A number is a double or a whole number with few enough digits. -/
theorem SpellsNumber.kind {t : Text} {v : Json} (h : SpellsNumber t v) :
    (∃ n, v = int n ∧ (Nat.toDigits 10 n.natAbs).length ≤ wholeDigitLimit) ∨
      ∃ d, v = double d := by
  cases h with
  | @parts negative whole fractionText powerText fraction power _ hw hf hp value =>
  have bound := Text.digitsValue_lt hw.digits
  unfold numberOf at value
  split at value
  · split at value
    · cases value
    · next short =>
      refine .inl ⟨_, (Option.some.inj value).symm, ?_⟩
      rw [natAbs_signed, Nat.length_toDigits_le_iff (by decide) (by decide)]
      exact Nat.lt_of_lt_of_le bound (Nat.pow_le_pow_right (by decide) (by omega))
  · exact .inr ⟨_, (Option.some.inj value).symm⟩

/-! ## Doubles -/

/-- How a double is laid out: its sign, the digits before and behind the point, the power of ten. -/
structure Spelling where
  negative : Bool
  whole : Text
  fraction : Option Text
  power : Option Int

namespace Spelling

def fractionText : Option Text → Text
  | none => []
  | some ds => .ofChar '.' :: ds

def powerText : Option Int → Text
  | none => []
  | some e => Double.exponentText e

def text (s : Spelling) : Text :=
  signText s.negative ++ (s.whole ++ (fractionText s.fraction ++ powerText s.power))

/-- The digits of the number without the point. -/
def digits (s : Spelling) : Text := s.whole ++ s.fraction.getD []

/-- The power of ten that the last of the digits stands for. -/
def lastPower (s : Spelling) : Int := s.power.getD 0 - (s.fraction.getD []).length

/-- There are digits wherever the grammar asks for them. -/
structure Proper (s : Spelling) : Prop where
  whole : IsWhole s.whole
  fraction : ∀ ds ∈ s.fraction, ds.IsDigits ∧ ds ≠ []

/-- What is properly laid out spells the number of its parts. -/
theorem spellsNumber {s : Spelling} (hs : s.Proper) {v : Json}
    (value : numberOf s.negative s.whole s.fraction s.power = some v) : SpellsNumber s.text v := by
  have fraction : SpellsFraction (fractionText s.fraction) s.fraction := by
    cases hf : s.fraction with
    | none => exact .none
    | some ds => exact .some (hs.fraction ds hf).1 (hs.fraction ds hf).2
  have power : SpellsPower (powerText s.power) s.power := by
    cases s.power with
    | none => exact .none
    | some e => exact spellsPower_exponentText e
  exact .parts hs.whole fraction power value

end Spelling

/-- A spelling of `digits * 10 ^ exponent` that is not read as a whole number. Zeros may have been
put behind the digits. -/
structure Spelling.Writes (s : Spelling) (digits : Nat) (exponent : Int) : Prop where
  proper : s.Proper
  inexact : s.fraction = none → s.power ≠ none
  shifted : ∃ k : Nat, Text.digitsValue s.digits = digits * 10 ^ k ∧ s.lastPower = exponent - k

theorem Spelling.Writes.numberOf {s : Spelling} {digits : Nat} {exponent : Int}
    (h : s.Writes digits exponent) : numberOf s.negative s.whole s.fraction s.power =
      some (double (.ofDecimal s.negative digits exponent)) := by
  obtain ⟨k, value, power⟩ := h.shifted
  have rank : Double.decimalRank (Text.digitsValue s.digits) s.lastPower =
      Double.decimalRank digits exponent := by
    rw [value, power, Double.decimalRank_shift]
  unfold Json.numberOf
  split
  · next hf hp => exact absurd hp (h.inexact hf)
  · exact congrArg (fun r => some (double (.ofRank s.negative r))) rank

theorem isWhole_zero : IsWhole [.ofChar '0'] := isWhole_ofNat 0

theorem digitsValue_behind_zeros (k : Nat) (ds : Text) :
    Text.digitsValue (List.replicate k (.ofChar '0') ++ ds) = Text.digitsValue ds := by
  rw [Text.digitsValue_append, Text.digitsValue_zeros, Nat.zero_mul, Nat.zero_add]

theorem digitsValue_before_zeros (ds : Text) (k : Nat) :
    Text.digitsValue (ds ++ List.replicate k (.ofChar '0')) = Text.digitsValue ds * 10 ^ k := by
  rw [Text.digitsValue_append, Text.digitsValue_zeros, Nat.add_zero, List.length_replicate]

section LayOut

variable {ds : Text} (hd : ds.IsDigits) (hne : ds ≠ []) (negative : Bool)

include hd hne

/-- Digits behind the point, with zeros between them and the point. -/
theorem writes_behind_point (k : Nat) :
    Spelling.Writes ⟨negative, [.ofChar '0'], some (List.replicate k (.ofChar '0') ++ ds), none⟩
      (Text.digitsValue ds) (-k - ds.length) := by
  refine ⟨⟨isWhole_zero, ?_⟩, nofun, 0, ?_, ?_⟩
  · rintro _ ⟨⟩
    exact ⟨(Text.isDigits_zeros k).append hd, List.append_ne_nil_of_right_ne_nil _ hne⟩
  · rw [Nat.pow_zero, Nat.mul_one]
    exact digitsValue_behind_zeros (k + 1) ds
  · simp only [Spelling.lastPower, Option.getD_none, Option.getD_some, List.length_append,
      List.length_replicate]
    omega

/-- The beginning of digits that do not begin with a zero, with zeros behind it. -/
theorem isWhole_take (hz : ds.head? ≠ some (.ofChar '0')) {n : Nat} (hn : n ≠ 0) (k : Nat) :
    IsWhole (ds.take n ++ List.replicate k (.ofChar '0')) := by
  obtain ⟨c, ds, rfl⟩ := List.exists_cons_of_ne_nil hne
  obtain ⟨n, rfl⟩ := Nat.exists_eq_succ_of_ne_zero hn
  refine ⟨?_, List.cons_ne_nil _ _, fun zero => absurd zero hz⟩
  exact Text.IsDigits.append (fun c hc => hd c (List.mem_of_mem_take hc)) (Text.isDigits_zeros k)

/-- The point among the digits or behind them, where a zero follows it. -/
theorem writes_point (hz : ds.head? ≠ some (.ofChar '0')) {n : Nat} (hn : n ≠ 0) :
    Spelling.Writes ⟨negative, ds.take n ++ List.replicate (n - ds.length) (.ofChar '0'),
      some (if (ds.drop n).isEmpty then [.ofChar '0'] else ds.drop n), none⟩
      (Text.digitsValue ds) (n - ds.length) := by
  have whole := isWhole_take hd hne hz hn (n - ds.length)
  by_cases long : ds.length ≤ n
  · have behind : ds.drop n = [] := List.drop_eq_nil_of_le long
    rw [List.take_of_length_le long] at whole ⊢
    simp only [behind, List.isEmpty_nil, if_true]
    refine ⟨⟨whole, ?_⟩, nofun, n - ds.length + 1, ?_, ?_⟩
    · rintro _ ⟨⟩
      exact ⟨Text.isDigits_zeros 1, List.cons_ne_nil _ _⟩
    · rw [← digitsValue_before_zeros, List.replicate_succ', ← List.append_assoc]
      rfl
    · simp only [Spelling.lastPower, Option.getD_none, Option.getD_some, List.length_singleton]
      omega
  · have behind : ds.drop n ≠ [] := fun e => long (List.drop_eq_nil_iff.1 e)
    have apart : n - ds.length = 0 := by omega
    rw [apart, List.replicate_zero, List.append_nil] at whole ⊢
    rw [if_neg (mt List.isEmpty_iff.1 behind)]
    refine ⟨⟨whole, ?_⟩, nofun, 0, ?_, ?_⟩
    · rintro _ ⟨⟩
      exact ⟨fun c hc => hd c (List.mem_of_mem_drop hc), behind⟩
    · rw [Nat.pow_zero, Nat.mul_one]
      exact congrArg Text.digitsValue (List.take_append_drop n ds)
    · simp only [Spelling.lastPower, Option.getD_none, Option.getD_some, List.length_drop]
      omega

/-- The point behind the first digit, if there are others, and a power of ten. -/
theorem writes_power (hz : ds.head? ≠ some (.ofChar '0')) (point : Int) :
    Spelling.Writes ⟨negative, ds.take 1,
      if (ds.drop 1).isEmpty then none else some (ds.drop 1), some (point - 1)⟩
      (Text.digitsValue ds) (point - ds.length) := by
  have whole := isWhole_take hd hne hz Nat.one_ne_zero 0
  rw [List.replicate_zero, List.append_nil] at whole
  have length : ds.length = (ds.drop 1).length + 1 := by
    have := List.length_pos_iff.2 hne
    rw [List.length_drop]
    omega
  have both := List.take_append_drop 1 ds
  have digits : Text.IsDigits (ds.drop 1) := fun c hc => hd c (List.mem_of_mem_drop hc)
  generalize ds.drop 1 = behind at *
  cases behind with
  | nil =>
    refine ⟨⟨whole, fun _ h => nomatch h⟩, fun _ => nofun, 0, ?_, ?_⟩
    · rw [Nat.pow_zero, Nat.mul_one]
      exact congrArg Text.digitsValue both
    · simp only [Spelling.lastPower, List.isEmpty_nil, if_true, Option.getD_none,
        Option.getD_some, length, List.length_nil]
      omega
  | cons c behind =>
    refine ⟨⟨whole, ?_⟩, nofun, 0, ?_, ?_⟩
    · rintro _ ⟨⟩
      exact ⟨digits, List.cons_ne_nil _ _⟩
    · rw [Nat.pow_zero, Nat.mul_one]
      exact congrArg Text.digitsValue both
    · simp only [Spelling.lastPower, List.isEmpty_cons, Bool.false_eq_true, if_false,
        Option.getD_some, length]
      omega

/-- However digits are laid out, they spell their number. -/
theorem exists_writes_layOut (hz : ds.head? ≠ some (.ofChar '0')) (point : Int) :
    ∃ s : Spelling, s.negative = negative ∧
      s.text = signText negative ++ Double.layOut ds point ∧
      s.Writes (Text.digitsValue ds) (point - ds.length) := by
  unfold Double.layOut
  split
  · split
    · refine ⟨_, rfl, ?_, writes_behind_point hd hne negative 0⟩
      exact congrArg (signText negative ++ _ :: _ :: ·) (List.append_nil ds)
    · next k _ => 
      have point_eq : -((k + 1 : Nat) : Int) - ds.length = Int.negSucc k - ds.length := by omega
      refine ⟨_, rfl, ?_, point_eq ▸ writes_behind_point hd hne negative (k + 1)⟩
      exact congrArg (signText negative ++ _ :: _ :: ·) (List.append_nil _)
    · next n zero _ =>
      refine ⟨_, rfl, ?_, writes_point hd hne negative hz zero⟩
      simp only [Spelling.text, Spelling.fractionText, Spelling.powerText, List.append_nil,
        List.append_assoc]
      rfl
  · refine ⟨_, rfl, ?_, writes_power hd hne negative hz point⟩
    simp only [Spelling.text, Spelling.powerText, List.append_assoc]
    split <;> rfl

end LayOut

/-- The digits of a decimal that are kept write the same number as all of them. -/
theorem significant_spec {d : Double.Decimal} (hd : d.digits ≠ 0) {ds : Text} {point : Int}
    (h : Double.significant d = (ds, point)) :
    ds.IsDigits ∧ ds ≠ [] ∧ ds.head? ≠ some (.ofChar '0') ∧
      ∃ k : Nat, d.digits = Text.digitsValue ds * 10 ^ k ∧
        d.exponent = point - ds.length - k := by
  obtain ⟨zeros, cut, all⟩ := Text.trimEnd_append (· = '0') (Text.ofNat d.digits)
  have zeros_eq : zeros = List.replicate zeros.length (.ofChar '0') :=
    List.eq_replicate_of_mem fun c hc => of_decide_eq_true (all c hc)
  have leading := Text.head?_ofNat hd
  have digits := Text.isDigits_ofNat d.digits
  have value := Text.digitsValue_ofNat d.digits
  unfold Double.significant at h
  simp only at h
  generalize Text.trimEnd (· = '0') (Text.ofNat d.digits) = kept at cut h
  generalize Text.ofNat d.digits = written at *
  subst cut
  have present : kept ≠ [] := by
    rintro rfl
    rw [List.nil_append, zeros_eq, Text.digitsValue_zeros] at value
    exact hd value.symm
  rw [if_neg (mt List.isEmpty_iff.1 present)] at h
  cases h
  refine ⟨fun c hc => digits c (List.mem_append_left _ hc), present, ?_, zeros.length, ?_, ?_⟩
  · obtain ⟨c, kept, rfl⟩ := List.exists_cons_of_ne_nil present
    exact leading
  · rw [← value, ← digitsValue_before_zeros, ← zeros_eq]
  · rw [List.length_append]
    omega

/-- A finite double is read back from its text. -/
theorem spellsNumber_finite (negative : Bool) (rank : Fin Double.finiteCount) :
    SpellsNumber ((Double.finite negative rank).toText doubleNames)
      (double (.finite negative rank)) := by
  have finite (r : Nat) (h : r = rank.val) :
      Double.ofRank negative r = .finite negative rank := by
    subst h
    exact dif_pos rank.isLt
  show SpellsNumber (signText negative ++ Double.rankText rank.val) _
  unfold Double.rankText
  split
  · next zero =>
    have writes := writes_behind_point (Text.isDigits_zeros 1) (List.cons_ne_nil _ _) negative 0
    exact Spelling.spellsNumber writes.proper
      (writes.numberOf.trans (congrArg (some <| double ·) (finite 0 zero.symm)))
  · next positive =>
    have back := Double.decimalRank_shortest positive rank.isLt
    have present : (Double.shortest rank.val).digits ≠ 0 := fun e => by
      rw [e] at back
      exact positive back.symm
    cases hs : Double.significant (Double.shortest rank.val) with
    | mk ds point =>
      obtain ⟨digits, kept, leading, k, value, power⟩ := significant_spec present hs
      obtain ⟨s, sign, text, writes⟩ := exists_writes_layOut digits kept negative leading point
      have same : Double.decimalRank (Text.digitsValue ds) (point - ds.length) = rank.val := by
        rw [← back, value, power, Double.decimalRank_shift]
      rw [← text]
      refine Spelling.spellsNumber writes.proper ?_
      rw [writes.numberOf, sign, Double.ofDecimal, finite _ same]

end PullAuth.Json
