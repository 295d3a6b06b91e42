import Mathlib.Data.List.DropRight
import PullAuth.Proofs.Text.Strict

/-!
The reading of UTF-8 that keeps stray bytes. Whatever the bytes are, they are the encoding of the
text that is read from them (`encodeKept?_keep`). A byte of ASCII ends every sequence before it and
belongs to none, so bytes can be read up to it and from it on (`keep_append`), and what a character
of ASCII is trimmed from in the text its byte can be trimmed from before (`withoutEnds_keep`).
-/
namespace PullAuth

/-- A list without `a` at either end. -/
def withoutEnds {α : Type} [DecidableEq α] (a : α) (l : List α) : List α :=
  (l.dropWhile (· = a)).rdropWhile (· = a)

section
variable {α : Type} [DecidableEq α] {a : α} {l : List α}

theorem head?_withoutEnds : (withoutEnds a l).head? ≠ some a := by
  intro h
  -- What is left begins like the list behind the first members, and that does not begin with `a`.
  obtain ⟨rest, e⟩ := List.rdropWhile_prefix (fun x => decide (x = a)) (l.dropWhile (· = a))
  have start : (l.dropWhile (· = a)).head? = some a := by
    rw [← e, List.head?_append]
    show (withoutEnds a l).head?.or rest.head? = some a
    rw [h]
    rfl
  have first := List.head?_dropWhile_not (fun x => decide (x = a)) l
  rw [start] at first
  simp at first

theorem getLast?_withoutEnds : (withoutEnds a l).getLast? ≠ some a := by
  intro h
  obtain ⟨front, e⟩ := List.getLast?_eq_some_iff.1 h
  have filled : withoutEnds a l ≠ [] := by simp [e]
  have last := List.rdropWhile_last_not (fun x => decide (x = a)) (l.dropWhile (· = a)) filled
  rw [List.getLast?_eq_some_getLast filled, Option.some.injEq] at h
  exact last (decide_eq_true h)

theorem withoutEnds_eq_self_iff :
    withoutEnds a l = l ↔ l.head? ≠ some a ∧ l.getLast? ≠ some a := by
  constructor
  · intro h
    rw [← h]
    exact ⟨head?_withoutEnds, getLast?_withoutEnds⟩
  · intro ⟨first, last⟩
    have start : l.dropWhile (· = a) = l := by
      cases l with
      | nil => rfl
      | cons x t => exact List.dropWhile_cons_of_neg (by simpa using first)
    rw [withoutEnds, start, List.rdropWhile_eq_self_iff]
    intro hne same
    rw [List.getLast?_eq_some_getLast hne] at last
    exact last (congrArg some (of_decide_eq_true same))

end

namespace Utf8

/-- The text of the bytes, with every stray byte kept as a surrogate. -/
def keep (bs : Bytes) : Text := (decode .keeping bs).getD []

theorem decode_keeping (bs : Bytes) : decode .keeping bs = some (keep bs) := by
  obtain ⟨t, ht⟩ := Option.isSome_iff_exists.1 (decodeFrom_keeping 0 bs)
  have read : decode .keeping bs = some t := ht
  rw [keep, read]
  rfl

theorem keep_of_decode {bs : Bytes} {t : Text} (h : decode .keeping bs = some t) : keep bs = t := by
  rw [keep, h]
  rfl

/-! ## What is read is written again -/

/-- A byte of ASCII is read by itself. -/
theorem first?_of_ascii {surrogates : Bool} {b : UInt8} (hb : b.toNat < 0x80) (rest : Bytes) :
    first? surrogates (b :: rest) = some (.ofByte b, 1) :=
  first?_one rfl hb (ofNat?_eq_some rfl)

/-- The surrogate that keeps a stray byte is written as the byte. -/
theorem keptSequence?_kept {b : UInt8} (hb : 0x80 ≤ b.toNat) :
    keptSequence? (kept b) = some [b] := by
  rw [keptSequence?, keptByte?_eq_some_iff.2 ⟨hb, rfl⟩]

theorem keptSequence?_of_not_isSurrogate {c : CodePoint} (h : c.isSurrogate = false) :
    keptSequence? c = some (sequence c) := by
  rw [keptSequence?, keptByte?_of_not_isSurrogate h, h]
  rfl

theorem encodeKept?_of_decodeFrom {skip : Nat} {bs : Bytes} {t : Text}
    (h : decodeFrom .keeping skip bs = some t) : encodeKept? t = some (bs.drop skip) := by
  induction bs generalizing skip t with
  | nil =>
    rw [decodeFrom] at h
    cases h
    rw [List.drop_nil]
    rfl
  | cons b rest ih =>
    cases skip with
    | succ skip => exact ih h
    | zero =>
      rw [decodeFrom] at h
      split at h
      · next c n hc =>
        obtain ⟨s, hs, rfl⟩ := Option.map_eq_some_iff.1 h
        obtain ⟨behind, e, rfl, -⟩ := append_of_first? hc
        rw [encodeKept?_cons, keptSequence?_of_not_isSurrogate (isSurrogate_of_first? hc), ih hs]
        cases hq : sequence c with
        | nil => exact absurd hq (sequence_ne_nil c)
        | cons x others =>
          rw [hq] at e
          obtain ⟨rfl, rfl⟩ := List.cons.inj e
          simp
      · next stray =>
        simp only [Reading.keeping] at h
        obtain ⟨s, hs, rfl⟩ := Option.map_eq_some_iff.1 h
        have large : 0x80 ≤ b.toNat := by
          by_contra small
          rw [first?_of_ascii (by omega)] at stray
          cases stray
        rw [encodeKept?_cons, keptSequence?_kept large, ih hs]
        rfl

/-- The bytes are the encoding of the text that is read from them. -/
theorem encodeKept?_keep (bs : Bytes) : encodeKept? (keep bs) = some bs :=
  encodeKept?_of_decodeFrom (decode_keeping bs)

/-- Where nothing is refused there is nothing to keep. -/
theorem decodeFrom_keeping_of_strict {skip : Nat} {bs : Bytes} {t : Text}
    (h : decodeFrom .strict skip bs = some t) : decodeFrom .keeping skip bs = some t := by
  induction bs generalizing skip t with
  | nil => exact h
  | cons b rest ih =>
    cases skip with
    | succ skip => exact ih h
    | zero =>
      rw [decodeFrom] at h ⊢
      split at h
      · next c n hc =>
        obtain ⟨s, hs, rfl⟩ := Option.map_eq_some_iff.1 h
        have first : first? Reading.keeping.surrogates (b :: rest) = some (c, n) := hc
        rw [first]
        exact Option.map_eq_some_iff.2 ⟨s, ih hs, rfl⟩
      · cases h

/-- A text is read strictly from its bytes and from no others. -/
theorem decode_strict_eq_some_iff {bs : Bytes} {t : Text} :
    decode .strict bs = some t ↔ encode? t = some bs := by
  refine ⟨fun h => ?_, decode_of_encode? .strict⟩
  rw [← encodeKept?_eq_encode? (isScalar_of_decode_strict h)]
  exact encodeKept?_of_decodeFrom (decodeFrom_keeping_of_strict h)

/-! ## Reading up to a byte of ASCII -/

theorem tail?_of_ascii {b : UInt8} (hb : b.toNat < 0x80) : tail? b = none := by
  rw [tail?, if_neg]
  simp only [Bool.and_eq_true, decide_eq_true_eq, not_and]
  omega

/-- No sequence goes on with a byte of ASCII. -/
theorem first?_append {surrogates : Bool} {b : UInt8} (hb : b.toNat < 0x80) (a : UInt8)
    (read rest : Bytes) :
    first? surrogates (a :: read ++ b :: rest) = first? surrogates (a :: read) := by
  have outside := tail?_of_ascii hb
  -- A sequence that is cut short needs a byte of `rest` as well, or two.
  rcases read with _ | ⟨x, _ | ⟨y, _ | ⟨z, read⟩⟩⟩
  · rcases rest with _ | ⟨d, _ | ⟨e, rest⟩⟩ <;> simp [first?, outside]
  · rcases rest with _ | ⟨e, rest⟩ <;> simp [first?, outside]
  · simp [first?, outside]
  · simp [first?]

theorem decode_cons_of_ascii (reading : Reading) {b : UInt8} (hb : b.toNat < 0x80) (rest : Bytes) :
    decode reading (b :: rest) = (decode reading rest).map (.ofByte b :: ·) := by
  rw [decode, decodeFrom, first?_of_ascii hb]
  rfl

/-- Bytes can be read up to a byte of ASCII and from it on. -/
theorem decodeFrom_append_ascii (reading : Reading) {b : UInt8} (hb : b.toNat < 0x80)
    (rest : Bytes) {skip : Nat} {read : Bytes} (hs : skip ≤ read.length) :
    decodeFrom reading skip (read ++ b :: rest) =
      (decodeFrom reading skip read).bind fun s =>
        (decode reading rest).map fun t => s ++ .ofByte b :: t := by
  induction read generalizing skip with
  | nil =>
    obtain rfl := Nat.le_zero.1 hs
    exact decode_cons_of_ascii reading hb rest
  | cons a read ih =>
    cases skip with
    | succ skip => exact ih (Nat.le_of_succ_le_succ hs)
    | zero =>
      rw [List.cons_append, decodeFrom, decodeFrom, ← List.cons_append, first?_append hb]
      cases hf : first? reading.surrogates (a :: read) with
      | none =>
        cases reading.stray a with
        | none => rfl
        | some c =>
          simp only [ih (Nat.zero_le _)]
          cases decodeFrom reading 0 read <;> cases decode reading rest <;> rfl
      | some found =>
        obtain ⟨c, n⟩ := found
        obtain ⟨behind, e, rfl, -⟩ := append_of_first? hf
        have bound : (sequence c).length - 1 ≤ read.length := by
          have := congrArg List.length e
          simp only [List.length_cons, List.length_append] at this
          omega
        simp only [ih bound]
        cases decodeFrom reading ((sequence c).length - 1) read <;>
          cases decode reading rest <;> rfl

theorem keep_append {b : UInt8} (hb : b.toNat < 0x80) (read rest : Bytes) :
    keep (read ++ b :: rest) = keep read ++ .ofByte b :: keep rest := by
  have parts := decodeFrom_append_ascii .keeping hb rest (Nat.zero_le read.length)
  apply keep_of_decode
  rw [decode, parts]
  show (decode .keeping read).bind _ = _
  rw [decode_keeping, decode_keeping]
  rfl

theorem keep_cons {b : UInt8} (hb : b.toNat < 0x80) (rest : Bytes) :
    keep (b :: rest) = .ofByte b :: keep rest :=
  keep_append hb [] rest

/-! ## Both ends -/

theorem encodeKept?_ofByte {a : UInt8} (ha : a.toNat < 0x80) :
    encodeKept? [.ofByte a] = some [a] := by
  rw [encodeKept?_of_ascii (List.forall_mem_singleton.2 ha)]
  simp [Bytes.ofAscii, CodePoint.ofByte]

/-- The text begins with a character of ASCII exactly if the bytes begin with its byte. -/
theorem head?_keep_iff {a : UInt8} (ha : a.toNat < 0x80) (bs : Bytes) :
    (keep bs).head? = some (.ofByte a) ↔ bs.head? = some a := by
  constructor
  · intro h
    obtain ⟨t, ht⟩ := List.head?_eq_some_iff.1 h
    have whole := encodeKept?_keep bs
    rw [ht] at whole
    obtain ⟨first, rest, hf, -, rfl⟩ := exists_of_encodeKept?_append (s := [.ofByte a]) whole
    rw [encodeKept?_ofByte ha] at hf
    cases hf
    rfl
  · intro h
    obtain ⟨rest, rfl⟩ := List.head?_eq_some_iff.1 h
    rw [keep_cons ha]
    rfl

theorem getLast?_keep_iff {a : UInt8} (ha : a.toNat < 0x80) (bs : Bytes) :
    (keep bs).getLast? = some (.ofByte a) ↔ bs.getLast? = some a := by
  constructor
  · intro h
    obtain ⟨t, ht⟩ := List.getLast?_eq_some_iff.1 h
    have whole := encodeKept?_keep bs
    rw [ht] at whole
    obtain ⟨front, last, -, hl, rfl⟩ := exists_of_encodeKept?_append whole
    rw [encodeKept?_ofByte ha] at hl
    cases hl
    rw [List.getLast?_concat]
  · intro h
    obtain ⟨front, rfl⟩ := List.getLast?_eq_some_iff.1 h
    rw [keep_append ha]
    exact List.getLast?_concat

theorem dropWhile_keep {a : UInt8} (ha : a.toNat < 0x80) (bs : Bytes) :
    (keep bs).dropWhile (· = .ofByte a) = keep (bs.dropWhile (· = a)) := by
  induction bs with
  | nil => rfl
  | cons b rest ih =>
    by_cases hb : b = a
    · subst hb
      rw [keep_cons ha, List.dropWhile_cons_of_pos (by simp), List.dropWhile_cons_of_pos (by simp),
        ih]
    · have other : (keep (b :: rest)).head? ≠ some (.ofByte a) := by
        rw [ne_eq, head?_keep_iff ha]
        simpa using hb
      rw [List.dropWhile_cons_of_neg (by simpa using hb)]
      cases hk : keep (b :: rest) with
      | nil => rfl
      | cons c t =>
        rw [hk] at other
        exact List.dropWhile_cons_of_neg (by simpa using other)

theorem rdropWhile_keep {a : UInt8} (ha : a.toNat < 0x80) (bs : Bytes) :
    (keep bs).rdropWhile (· = .ofByte a) = keep (bs.rdropWhile (· = a)) := by
  induction bs using List.reverseRecOn with
  | nil => rfl
  | append_singleton front b ih =>
    by_cases hb : b = a
    · subst hb
      have last : keep (front ++ [b]) = keep front ++ [.ofByte b] := keep_append ha front []
      rw [last, List.rdropWhile_concat_pos _ _ _ (by simp),
        List.rdropWhile_concat_pos _ _ _ (by simp), ih]
    · have other : (keep (front ++ [b])).getLast? ≠ some (.ofByte a) := by
        rw [ne_eq, getLast?_keep_iff ha]
        simpa using hb
      rw [List.rdropWhile_concat_neg _ _ _ (by simpa using hb), List.rdropWhile_eq_self_iff]
      intro hne same
      rw [List.getLast?_eq_some_getLast hne] at other
      exact other (congrArg some (by simpa using same))

theorem withoutEnds_keep {a : UInt8} (ha : a.toNat < 0x80) (bs : Bytes) :
    withoutEnds (.ofByte a) (keep bs) = keep (withoutEnds a bs) := by
  rw [withoutEnds, dropWhile_keep ha, rdropWhile_keep ha]
  rfl

end Utf8

/-! ## Which texts can be written, and which are read -/

/-- Every surrogate in the text keeps a stray byte. -/
def Text.IsWritable (t : Text) : Prop :=
  ∀ c ∈ t, c.isSurrogate = true → ∃ b : UInt8, 0x80 ≤ b.toNat ∧ c = Utf8.kept b

/-- Only a surrogate that keeps no byte cannot be written. -/
theorem exists_keptSequence?_iff {c : CodePoint} :
    (∃ front, Utf8.keptSequence? c = some front) ↔
      (c.isSurrogate = true → ∃ b : UInt8, 0x80 ≤ b.toNat ∧ c = Utf8.kept b) := by
  constructor
  · rintro ⟨front, hf⟩ surrogate
    cases hk : Utf8.keptByte? c with
    | none =>
      rw [Utf8.keptSequence?, hk, surrogate] at hf
      cases hf
    | some b => exact ⟨b, Utf8.keptByte?_eq_some_iff.1 hk⟩
  · intro h
    cases hc : c.isSurrogate with
    | false => exact ⟨_, Utf8.keptSequence?_of_not_isSurrogate hc⟩
    | true =>
      obtain ⟨b, large, rfl⟩ := h hc
      exact ⟨_, Utf8.keptSequence?_kept large⟩

theorem Text.isWritable_iff {t : Text} : t.IsWritable ↔ ∃ bs, Utf8.encodeKept? t = some bs := by
  induction t with
  | nil => exact ⟨fun _ => ⟨[], rfl⟩, fun _ => nofun⟩
  | cons c t ih =>
    rw [IsWritable, List.forall_mem_cons, ← exists_keptSequence?_iff]
    constructor
    · rintro ⟨⟨front, hf⟩, others⟩
      obtain ⟨bs, hbs⟩ := ih.1 others
      rw [Utf8.encodeKept?_cons, hf, hbs]
      exact ⟨front ++ bs, rfl⟩
    · rintro ⟨whole, hw⟩
      rw [Utf8.encodeKept?_cons, Option.bind_eq_some_iff] at hw
      obtain ⟨front, hf, rest⟩ := hw
      obtain ⟨bs, hbs, -⟩ := Option.map_eq_some_iff.1 rest
      exact ⟨⟨front, hf⟩, ih.2 ⟨bs, hbs⟩⟩

/-- Some bytes are read as the text. -/
def Text.IsKept (t : Text) : Prop := ∃ bs, Utf8.keep bs = t

theorem Text.IsKept.isWritable {t : Text} (h : t.IsKept) : t.IsWritable := by
  obtain ⟨bs, rfl⟩ := h
  exact isWritable_iff.2 ⟨bs, Utf8.encodeKept?_keep bs⟩

theorem Text.IsScalar.isKept {t : Text} (h : t.IsScalar) : t.IsKept := by
  have encoded : (Utf8.encode? t).isSome = true := by
    induction t with
    | nil => rfl
    | cons c t ih =>
      obtain ⟨first, others⟩ := List.forall_mem_cons.1 h
      rw [Utf8.encode?, first]
      simpa using ih others
  obtain ⟨bs, hbs⟩ := Option.isSome_iff_exists.1 encoded
  exact ⟨bs, Utf8.keep_of_decode (Utf8.decode_of_encode? .keeping hbs)⟩

end PullAuth
