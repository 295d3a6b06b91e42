import Mathlib.Data.List.Chain
import PullAuth.Json.Printer
import PullAuth.Json.Reader
import PullAuth.Proofs.Text.Hexadecimal

/-!
Strings in JSON texts. `Spells` says with what spellings a character of a string can begin, and the
reader follows it in both directions (`readString_of_spells`, `readString_cases`). A string that was
read never has the two halves of a surrogate pair next to each other, because the escapes of two
such halves are read as one character (`isJoined_of_readString`). Such a string is read back from
its written form (`readString_escaped`): halves that stand alone stay alone.
-/
namespace PullAuth

/-- No first half of a surrogate pair stands right before a second half. -/
def Text.IsJoined (t : Text) : Prop :=
  t.IsChain fun c d => (c.isHighSurrogate && d.isLowSurrogate) = false

instance (t : Text) : Decidable t.IsJoined :=
  inferInstanceAs (Decidable (t.IsChain fun c d => (c.isHighSurrogate && d.isLowSurrogate) = false))

/-- A text without surrogates, as strict UTF-8 gives it. -/
def Text.IsScalar (t : Text) : Prop := ∀ c ∈ t, c.isSurrogate = false

instance (t : Text) : Decidable t.IsScalar :=
  inferInstanceAs (Decidable (∀ c ∈ t, c.isSurrogate = false))

theorem Text.IsScalar.of_suffix {s t : Text} (h : t.IsScalar) (hs : s <:+ t) : s.IsScalar :=
  fun c hc => h c (hs.subset hc)

namespace CodePoint

theorem isHighSurrogate_of_not_isSurrogate {c : CodePoint} (h : c.isSurrogate = false) :
    c.isHighSurrogate = false := by
  simp only [isSurrogate, isHighSurrogate, Bool.and_eq_false_iff, decide_eq_false_iff_not] at h ⊢
  omega

theorem isLowSurrogate_of_not_isSurrogate {c : CodePoint} (h : c.isSurrogate = false) :
    c.isLowSurrogate = false := by
  simp only [isSurrogate, isLowSurrogate, Bool.and_eq_false_iff, decide_eq_false_iff_not] at h ⊢
  omega

theorem toNat_ofSurrogates {high low : CodePoint} (hh : high.isHighSurrogate = true)
    (hl : low.isLowSurrogate = true) :
    (ofSurrogates high low).toNat =
      0x10000 + (high.toNat - 0xD800) * 0x400 + (low.toNat - 0xDC00) := by
  rw [ofSurrogates, dif_pos ⟨hh, hl⟩]

/-- Two halves stand for a character that is no surrogate. -/
theorem isSurrogate_ofSurrogates {high low : CodePoint} (hh : high.isHighSurrogate = true)
    (hl : low.isLowSurrogate = true) : (ofSurrogates high low).isSurrogate = false := by
  simp only [isSurrogate, toNat_ofSurrogates hh hl, Bool.and_eq_false_iff,
    decide_eq_false_iff_not]
  omega

theorem eq_of_toNat {c d : CodePoint} (h : c.toNat = d.toNat) : c = d := by
  cases c
  cases d
  simpa using h

end CodePoint

namespace Json

/-! ## Characters of a string -/

/-- No unit follows that could be the second half of a pair. -/
def NoLowNext (t : Text) : Prop :=
  ∀ (l₁ l₂ l₃ l₄ : CodePoint) (rest : Text),
    t = .ofChar '\\' :: .ofChar 'u' :: l₁ :: l₂ :: l₃ :: l₄ :: rest →
    ∃ low, hexUnit? l₁ l₂ l₃ l₄ = some low ∧ low.isLowSurrogate = false

/-- A text begins with the spelling of a character of a string, and what follows it. -/
inductive Spells : Text → CodePoint → Text → Prop
  | plain {c : CodePoint} {t : Text} : c ≠ '"' → ¬c.toNat < 0x20 → c ≠ '\\' → Spells (c :: t) c t
  | letter {e c : CodePoint} {t : Text} : e ≠ 'u' → escape? e = some c →
    Spells (.ofChar '\\' :: e :: t) c t
  /-- A unit by itself; a first half does not stand before a second half. -/
  | unit {h₁ h₂ h₃ h₄ c : CodePoint} {t : Text} : hexUnit? h₁ h₂ h₃ h₄ = some c →
    (c.isHighSurrogate = true → NoLowNext t) →
    Spells (.ofChar '\\' :: .ofChar 'u' :: h₁ :: h₂ :: h₃ :: h₄ :: t) c t
  | pair {h₁ h₂ h₃ h₄ l₁ l₂ l₃ l₄ high low : CodePoint} {t : Text} :
    hexUnit? h₁ h₂ h₃ h₄ = some high → hexUnit? l₁ l₂ l₃ l₄ = some low →
    high.isHighSurrogate = true → low.isLowSurrogate = true →
    Spells (.ofChar '\\' :: .ofChar 'u' :: h₁ :: h₂ :: h₃ :: h₄ ::
      .ofChar '\\' :: .ofChar 'u' :: l₁ :: l₂ :: l₃ :: l₄ :: t) (.ofSurrogates high low) t

theorem prepend_eq_some_iff {c : CodePoint} {reading : Option (Text × Text)} {v rest : Text} :
    prepend c reading = some (v, rest) ↔ ∃ w, reading = some (w, rest) ∧ v = c :: w := by
  unfold prepend
  rw [Option.map_eq_some_iff]
  constructor
  · intro ⟨⟨w, r⟩, h, e⟩
    cases e
    exact ⟨w, h, rfl⟩
  · intro ⟨w, h, e⟩
    exact ⟨(w, rest), h, by rw [e]⟩

theorem readString_quote (t : Text) : readString (.ofChar '"' :: t) = some ([], t) := by
  rw [readString.eq_def]
  exact if_pos rfl

theorem readString_of_spells {t rest : Text} {c : CodePoint} (h : Spells t c rest) :
    readString t = prepend c (readString rest) := by
  cases h with
  | plain hq hc hb =>
    rw [readString.eq_def]
    simp only [if_neg hq, if_neg hc, if_pos hb]
  | letter hu he =>
    rw [readString.eq_def]
    simp only [he]
    rw [if_neg (by decide), if_neg (by decide), if_neg (by decide), if_pos hu]
  | unit hu alone =>
    rw [readString.eq_def]
    simp only [hu]
    rw [if_neg (by decide), if_neg (by decide), if_neg (by decide), if_neg (by decide)]
    split
    · next b v l₁ l₂ l₃ l₄ t =>
      split
      · next both =>
        simp only [Bool.and_eq_true, decide_eq_true_eq] at both
        obtain ⟨⟨hh, rfl⟩, rfl⟩ := both
        obtain ⟨low, hl, hn⟩ := alone hh l₁ l₂ l₃ l₄ t rfl
        simp only [hl, hn]
        rfl
      · rfl
    · rfl
  | pair hu hl hh hlow =>
    rw [readString.eq_def]
    simp only [hu, hl, hh, hlow]
    rw [if_neg (by decide), if_neg (by decide), if_neg (by decide), if_neg (by decide)]
    exact if_pos rfl

/-- A string that begins with an escaped unit begins with the spelling of a character. -/
theorem readString_unit_cases {h₁ h₂ h₃ h₄ c : CodePoint} {t v rest : Text}
    (hc : hexUnit? h₁ h₂ h₃ h₄ = some c)
    (h : readString (.ofChar '\\' :: .ofChar 'u' :: h₁ :: h₂ :: h₃ :: h₄ :: t) = some (v, rest)) :
    ∃ d next w, Spells (.ofChar '\\' :: .ofChar 'u' :: h₁ :: h₂ :: h₃ :: h₄ :: t) d next ∧
      readString next = some (w, rest) ∧ v = d :: w := by
  rw [readString.eq_def] at h
  simp only [hc] at h
  rw [if_neg (by decide), if_neg (by decide), if_neg (by decide), if_neg (by decide)] at h
  split at h
  · next b v l₁ l₂ l₃ l₄ t =>
    split at h
    · next both =>
      simp only [Bool.and_eq_true, decide_eq_true_eq] at both
      obtain ⟨⟨hh, rfl⟩, rfl⟩ := both
      split at h
      · cases h
      next low hl =>
      split at h
      · next hlow =>
        obtain ⟨w, hw, rfl⟩ := prepend_eq_some_iff.1 h
        exact ⟨_, t, w, .pair hc hl hh hlow, hw, rfl⟩
      · next hlow =>
        -- A first half stands before a unit that is no second half.
        obtain ⟨w, hw, rfl⟩ := prepend_eq_some_iff.1 h
        refine ⟨c, _, w, .unit hc fun _ => ?_, hw, rfl⟩
        intro a₁ a₂ a₃ a₄ s e
        cases e
        exact ⟨low, hl, by simpa using hlow⟩
    · next other =>
      -- It is no first half that stands before a unit.
      obtain ⟨w, hw, rfl⟩ := prepend_eq_some_iff.1 h
      refine ⟨c, _, w, .unit hc fun hh => ?_, hw, rfl⟩
      intro a₁ a₂ a₃ a₄ s e
      cases e
      simp [hh] at other
  · next short =>
    -- What follows is too short for a unit.
    obtain ⟨w, hw, rfl⟩ := prepend_eq_some_iff.1 h
    refine ⟨c, _, w, .unit hc fun _ => ?_, hw, rfl⟩
    intro a₁ a₂ a₃ a₄ s e
    exact absurd e (short _ _ _ _ _ _ _)

/-- A string ends with a quote, or it begins with the spelling of a character. -/
theorem readString_cases {t v rest : Text} (h : readString t = some (v, rest)) :
    (t = .ofChar '"' :: rest ∧ v = []) ∨
      ∃ c next w, Spells t c next ∧ readString next = some (w, rest) ∧ v = c :: w := by
  have whole := h
  rw [readString.eq_def] at h
  split at h
  · cases h
  next c t =>
  split at h
  · next hq =>
    cases h
    exact .inl ⟨by rw [hq], rfl⟩
  next hq =>
  split at h
  · cases h
  next hc =>
  split at h
  · next hb =>
    obtain ⟨w, hw, rfl⟩ := prepend_eq_some_iff.1 h
    exact .inr ⟨c, t, w, .plain hq hc hb, hw, rfl⟩
  next hb =>
  rw [not_not] at hb
  subst hb
  split at h
  · cases h
  next e t =>
  split at h
  · next hu =>
    split at h
    · next c he =>
      obtain ⟨w, hw, rfl⟩ := prepend_eq_some_iff.1 h
      exact .inr ⟨c, t, w, .letter hu he, hw, rfl⟩
    · cases h
  next hu =>
  rw [not_not] at hu
  subst hu
  split at h
  · split at h
    · cases h
    · next c hc => exact .inr (readString_unit_cases hc whole)
  · cases h

/-! ## What is read -/

namespace Spells

variable {t next : Text} {c : CodePoint}

theorem suffix (h : Spells t c next) : next <:+ t := by
  cases h with
  | plain => exact ⟨[_], rfl⟩
  | letter => exact ⟨[_, _], rfl⟩
  | unit => exact ⟨[_, _, _, _, _, _], rfl⟩
  | pair => exact ⟨[_, _, _, _, _, _, _, _, _, _, _, _], rfl⟩

theorem isSurrogate_of_escape? {e : CodePoint} (h : escape? e = some c) :
    c.isSurrogate = false := by
  unfold escape? at h
  split at h
  · next known =>
    cases h
    simp only [Bool.or_eq_true, decide_eq_true_eq] at known
    rcases known with (rfl | rfl) | rfl <;> decide
  · repeat' split at h
    all_goals cases h
    all_goals decide

/-- A surrogate is spelled as a unit. -/
theorem unit_of_isSurrogate (h : Spells t c next) (ht : t.IsScalar) (hc : c.isSurrogate = true) :
    (c.isHighSurrogate = true → NoLowNext next) ∧
      ∃ h₁ h₂ h₃ h₄ : CodePoint,
        t = .ofChar '\\' :: .ofChar 'u' :: h₁ :: h₂ :: h₃ :: h₄ :: next ∧
          hexUnit? h₁ h₂ h₃ h₄ = some c := by
  cases h with
  | plain =>
    rw [ht c List.mem_cons_self] at hc
    cases hc
  | letter hu he =>
    rw [isSurrogate_of_escape? he] at hc
    cases hc
  | unit hu alone => exact ⟨alone, _, _, _, _, rfl, hu⟩
  | pair hu hl hh hlow =>
    rw [CodePoint.isSurrogate_ofSurrogates hh hlow] at hc
    cases hc

end Spells

/-- A string that was read from a text without surrogates is joined: a first half in it was spelled
where no second half follows. -/
theorem isJoined_of_readString {t v rest : Text} (ht : t.IsScalar)
    (h : readString t = some (v, rest)) :
    v.IsJoined ∧ rest <:+ t ∧ ∀ d ∈ v.head?, d.isLowSurrogate = true → ¬NoLowNext t := by
  induction v generalizing t with
  | nil =>
    rcases readString_cases h with ⟨rfl, -⟩ | ⟨c, next, w, -, -, e⟩
    · exact ⟨.nil, ⟨[_], rfl⟩, nofun⟩
    · cases e
  | cons c v ih =>
    rcases readString_cases h with ⟨-, e⟩ | ⟨c', next, w, hs, hn, e⟩
    · cases e
    cases e
    obtain ⟨joined, suffix, low⟩ := ih (ht.of_suffix hs.suffix) hn
    refine ⟨List.isChain_cons.2 ⟨fun d hd => ?_, joined⟩, suffix.trans hs.suffix, ?_⟩
    · rw [← Bool.not_eq_true, Bool.and_eq_true]
      intro ⟨hc, hd'⟩
      have surrogate : c.isSurrogate = true := by
        rw [← Bool.not_eq_false]
        intro scalar
        rw [CodePoint.isHighSurrogate_of_not_isSurrogate scalar] at hc
        cases hc
      exact low d hd hd' ((hs.unit_of_isSurrogate ht surrogate).1 hc)
    · intro d hd hlow alone
      cases hd
      have surrogate : c.isSurrogate = true := by
        rw [← Bool.not_eq_false]
        intro scalar
        rw [CodePoint.isLowSurrogate_of_not_isSurrogate scalar] at hlow
        cases hlow
      obtain ⟨-, h₁, h₂, h₃, h₄, rfl, hu⟩ := hs.unit_of_isSurrogate ht surrogate
      obtain ⟨found, hf, hn⟩ := alone h₁ h₂ h₃ h₄ next rfl
      rw [hu] at hf
      cases hf
      rw [hlow] at hn
      cases hn

/-! ## What is written -/

/-- The escape of a unit is read as the unit. -/
theorem exists_unitEscape {c : CodePoint} (h : c.toNat < 0x10000) :
    ∃ a b d e : CodePoint,
      unitEscape c.toNat = [.ofChar '\\', .ofChar 'u', a, b, d, e] ∧
      hexUnit? a b d e = some c := by
  have value := Text.hexValue_ofHex 4 c.toNat
  have digits : ∀ x ∈ Text.ofHex 4 c.toNat, ∃ v, x.hexValue? = some v := by
    intro x hx
    obtain ⟨v, hv, rfl⟩ := Text.exists_of_mem_ofHex hx
    exact ⟨v, Bytes.hexValue?_hexDigit v hv⟩
  obtain ⟨a, b, d, e, he⟩ : ∃ a b d e, Text.ofHex 4 c.toNat = [a, b, d, e] :=
    List.length_eq_four.1 (Text.length_ofHex (by decide) h)
  rw [he] at value digits
  refine ⟨a, b, d, e, by rw [unitEscape, he]; rfl, ?_⟩
  obtain ⟨w, hw⟩ := digits a (by simp)
  obtain ⟨x, hx⟩ := digits b (by simp)
  obtain ⟨y, hy⟩ := digits d (by simp)
  obtain ⟨z, hz⟩ := digits e (by simp)
  simp only [Text.hexValue, List.foldl_cons, List.foldl_nil, hw, hx, hy, hz,
    Option.getD_some] at value
  have number : ((w * 16 + x) * 16 + y) * 16 + z = c.toNat := by omega
  simp only [hexUnit?, hw, hx, hy, hz, number, Option.bind_eq_bind, Option.bind_some,
    CodePoint.ofNat?, dif_pos c.isLt]

/-- The two halves that a character outside the first plane is written with. -/
theorem exists_halves {c : CodePoint} (h : 0x10000 ≤ c.toNat) :
    ∃ high low : CodePoint, high.toNat = 0xD800 + (c.toNat - 0x10000) / 0x400 ∧
      low.toNat = 0xDC00 + (c.toNat - 0x10000) % 0x400 ∧ high.isHighSurrogate = true ∧
      low.isLowSurrogate = true ∧ c = .ofSurrogates high low := by
  have bound := c.isLt
  refine ⟨⟨0xD800 + (c.toNat - 0x10000) / 0x400, by omega⟩,
    ⟨0xDC00 + (c.toNat - 0x10000) % 0x400, by omega⟩, rfl, rfl, ?_⟩
  have hh : CodePoint.isHighSurrogate
      ⟨0xD800 + (c.toNat - 0x10000) / 0x400, by omega⟩ = true := by
    simp only [CodePoint.isHighSurrogate, Bool.and_eq_true, decide_eq_true_eq]
    omega
  have hl : CodePoint.isLowSurrogate
      ⟨0xDC00 + (c.toNat - 0x10000) % 0x400, by omega⟩ = true := by
    simp only [CodePoint.isLowSurrogate, Bool.and_eq_true, decide_eq_true_eq]
    omega
  refine ⟨hh, hl, CodePoint.eq_of_toNat ?_⟩
  rw [CodePoint.toNat_ofSurrogates hh hl]
  show c.toNat = 0x10000 + (0xD800 + (c.toNat - 0x10000) / 0x400 - 0xD800) * 0x400 +
    (0xDC00 + (c.toNat - 0x10000) % 0x400 - 0xDC00)
  omega

/-- The four ways in which a character is written. -/
theorem escapedChar_cases (c : CodePoint) :
    (∃ e, escapedChar c = [.ofChar '\\', e] ∧ e ≠ 'u' ∧ escape? e = some c) ∨
    (escapedChar c = [c] ∧ c ≠ '"' ∧ ¬c.toNat < 0x20 ∧ c ≠ '\\') ∨
    (∃ h₁ h₂ h₃ h₄, escapedChar c = [.ofChar '\\', .ofChar 'u', h₁, h₂, h₃, h₄] ∧
      hexUnit? h₁ h₂ h₃ h₄ = some c) ∨
    (∃ h₁ h₂ h₃ h₄ l₁ l₂ l₃ l₄ high low,
      escapedChar c = [.ofChar '\\', .ofChar 'u', h₁, h₂, h₃, h₄,
        .ofChar '\\', .ofChar 'u', l₁, l₂, l₃, l₄] ∧
      hexUnit? h₁ h₂ h₃ h₄ = some high ∧ hexUnit? l₁ l₂ l₃ l₄ = some low ∧
      high.isHighSurrogate = true ∧ low.isLowSurrogate = true ∧
      c = .ofSurrogates high low) := by
  generalize written_eq : escapedChar c = written
  unfold escapedChar at written_eq
  split at written_eq
  · next h => exact .inl ⟨.ofChar '"', written_eq.symm, by decide, by rw [h]; decide⟩
  next hq =>
  split at written_eq
  · next h => exact .inl ⟨.ofChar '\\', written_eq.symm, by decide, by rw [h]; decide⟩
  next hb =>
  split at written_eq
  · next h => exact .inl ⟨.ofChar 'n', written_eq.symm, by decide, by rw [h]; decide⟩
  split at written_eq
  · next h => exact .inl ⟨.ofChar 'r', written_eq.symm, by decide, by rw [h]; decide⟩
  split at written_eq
  · next h => exact .inl ⟨.ofChar 't', written_eq.symm, by decide, by rw [h]; decide⟩
  split at written_eq
  · next h => exact .inl ⟨.ofChar 'b', written_eq.symm, by decide, by rw [h]; decide⟩
  split at written_eq
  · next h => exact .inl ⟨.ofChar 'f', written_eq.symm, by decide, by rw [h]; decide⟩
  split at written_eq
  · next h =>
    simp only [Bool.and_eq_true, decide_eq_true_eq] at h
    exact .inr (.inl ⟨written_eq.symm, hq, by omega, hb⟩)
  split at written_eq
  · next h =>
    obtain ⟨h₁, h₂, h₃, h₄, he, hu⟩ := exists_unitEscape h
    exact .inr (.inr (.inl ⟨h₁, h₂, h₃, h₄, written_eq.symm.trans he, hu⟩))
  · next h =>
    -- Beyond the first plane a character is written as two halves.
    obtain ⟨high, low, hhigh, hlow, hh, hl, e⟩ := exists_halves (c := c) (by omega)
    have bound := c.isLt
    obtain ⟨h₁, h₂, h₃, h₄, he, hu⟩ := exists_unitEscape (c := high) (by omega)
    obtain ⟨l₁, l₂, l₃, l₄, he', hu'⟩ := exists_unitEscape (c := low) (by omega)
    rw [hhigh] at he
    rw [hlow] at he'
    rw [he, he'] at written_eq
    exact .inr (.inr (.inr ⟨h₁, h₂, h₃, h₄, l₁, l₂, l₃, l₄, high, low, written_eq.symm, hu, hu',
      hh, hl, e⟩))

theorem spells_escapedChar {c : CodePoint} {t : Text}
    (h : c.isHighSurrogate = true → NoLowNext t) : Spells (escapedChar c ++ t) c t := by
  obtain ⟨e, he, hu, hc⟩ | ⟨he, hq, hc, hb⟩ | ⟨h₁, h₂, h₃, h₄, he, hu⟩ |
    ⟨h₁, h₂, h₃, h₄, l₁, l₂, l₃, l₄, high, low, he, hu, hl, hh, hlow, e⟩ := escapedChar_cases c
  · rw [he]
    exact .letter hu hc
  · rw [he]
    exact .plain hq hc hb
  · rw [he]
    exact .unit hu h
  · rw [he, e]
    exact .pair hu hl hh hlow

/-- Only a second half is written like one. -/
theorem noLowNext_escapedChar {c : CodePoint} (h : c.isLowSurrogate = false) (t : Text) :
    NoLowNext (escapedChar c ++ t) := by
  intro a₁ a₂ a₃ a₄ rest ht
  obtain ⟨e, he, hu, -⟩ | ⟨he, -, -, hb⟩ | ⟨h₁, h₂, h₃, h₄, he, hu⟩ |
    ⟨h₁, h₂, h₃, h₄, l₁, l₂, l₃, l₄, high, low, he, hu, -, hh, -, -⟩ := escapedChar_cases c
  · rw [he] at ht
    cases ht
    exact absurd rfl hu
  · rw [he] at ht
    cases ht
    exact absurd rfl hb
  · rw [he] at ht
    cases ht
    exact ⟨c, hu, h⟩
  · rw [he] at ht
    cases ht
    refine ⟨high, hu, ?_⟩
    simp only [CodePoint.isHighSurrogate, CodePoint.isLowSurrogate, Bool.and_eq_true,
      decide_eq_true_eq, Bool.and_eq_false_iff, decide_eq_false_iff_not] at hh ⊢
    omega

/-- The characters of a joined text are read back up to the closing quote. -/
theorem readString_escaped {t : Text} (h : t.IsJoined) (rest : Text) :
    readString (t.flatMap escapedChar ++ .ofChar '"' :: rest) = some (t, rest) := by
  induction t with
  | nil => exact readString_quote rest
  | cons c t ih =>
    obtain ⟨apart, joined⟩ := List.isChain_cons.1 h
    have next : c.isHighSurrogate = true →
        NoLowNext (t.flatMap escapedChar ++ .ofChar '"' :: rest) := by
      intro hc
      cases t with
      | nil =>
        intro l₁ l₂ l₃ l₄ s e
        cases e
      | cons d t =>
        have := apart d rfl
        rw [hc, Bool.true_and] at this
        rw [List.flatMap_cons, List.append_assoc]
        exact noLowNext_escapedChar this _
    rw [List.flatMap_cons, List.append_assoc, readString_of_spells (spells_escapedChar next),
      ih joined]
    rfl

end Json

end PullAuth
