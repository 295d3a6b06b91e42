import PullAuth.Proofs.Json.Strings
import PullAuth.Proofs.Text.Decimal
import PullAuth.Proofs.Text.Encoded

/-!
The strict reading of UTF-8. What is read stands in front of the bytes as its sequence
(`append_of_first?`), so texts without surrogates are read (`isScalar_of_decode_strict`). Every such
text has bytes (`isScalar_iff_encode?`) and is read back from them (`decode_of_encode?`); for a text
of ASCII they are its characters (`decode_ofAscii`).
-/
namespace PullAuth

/-- A text of ASCII. -/
def Text.IsAscii (t : Text) : Prop := ∀ c ∈ t, c.toNat < 0x80

instance (t : Text) : Decidable t.IsAscii := inferInstanceAs (Decidable (∀ c ∈ t, c.toNat < 0x80))

/-- As many opening brackets. -/
def Text.brackets (n : Nat) : Text := List.replicate n (.ofChar '[')

theorem Text.brackets_succ (n : Nat) (t : Text) :
    brackets (n + 1) ++ t = .ofChar '[' :: (brackets n ++ t) := by
  rw [brackets, List.replicate_succ, List.cons_append]
  rfl

theorem Text.isAscii_brackets (n : Nat) : (brackets n).IsAscii := fun c hc => by
  rw [List.eq_of_mem_replicate hc]
  decide

theorem Text.IsAscii.append {s t : Text} (hs : s.IsAscii) (ht : t.IsAscii) : (s ++ t).IsAscii := by
  intro c hc
  rcases List.mem_append.1 hc with hc | hc
  · exact hs c hc
  · exact ht c hc

theorem Text.IsDigits.isAscii {ds : Text} (h : ds.IsDigits) : ds.IsAscii := by
  intro c hc
  have digit := h c hc
  simp only [CodePoint.isDigit, Bool.and_eq_true, decide_eq_true_eq] at digit
  omega

namespace Utf8

theorem isSurrogate_of_range {c : CodePoint} (h : c.toNat < 0xD800 ∨ 0xE000 ≤ c.toNat) :
    c.isSurrogate = false := by
  simp only [CodePoint.isSurrogate, Bool.and_eq_false_iff, decide_eq_false_iff_not]
  omega

theorem toNat_of_ofNat? {n : Nat} {c : CodePoint} (h : CodePoint.ofNat? n = some c) :
    c.toNat = n := by
  by_cases hn : n < 0x110000
  · rw [CodePoint.ofNat?, dif_pos hn, Option.some.injEq] at h
    rw [← h]
  · rw [CodePoint.ofNat?, dif_neg hn] at h
    cases h

theorem toNat_of_tail? {b : UInt8} {x : Nat} (h : tail? b = some x) :
    b.toNat = 0x80 + x ∧ x < 0x40 := by
  unfold tail? at h
  split at h
  · next range =>
    simp only [Bool.and_eq_true, decide_eq_true_eq] at range
    have value := Option.some.inj h
    omega
  · cases h

section
variable {a b d e : UInt8} {c : CodePoint}

theorem sequence_one (ha : a.toNat = c.toNat) (short : c.toNat < 0x80) : sequence c = [a] := by
  unfold sequence
  simp only
  rw [if_pos short, ← ha, UInt8.ofNat_toNat]

theorem sequence_two (ha : a.toNat = 0xC0 + c.toNat / 0x40) (hb : b.toNat = 0x80 + c.toNat % 0x40)
    (long : 0x80 ≤ c.toNat) (short : c.toNat < 0x800) : sequence c = [a, b] := by
  unfold sequence
  simp only
  rw [if_neg (by omega), if_pos short, ← ha, ← hb, UInt8.ofNat_toNat, UInt8.ofNat_toNat]

theorem sequence_three (ha : a.toNat = 0xE0 + c.toNat / 0x1000)
    (hb : b.toNat = 0x80 + c.toNat / 0x40 % 0x40) (hd : d.toNat = 0x80 + c.toNat % 0x40)
    (long : 0x800 ≤ c.toNat) (short : c.toNat < 0x10000) : sequence c = [a, b, d] := by
  unfold sequence
  simp only
  rw [if_neg (by omega), if_neg (by omega), if_pos short, ← ha, ← hb, ← hd, UInt8.ofNat_toNat,
    UInt8.ofNat_toNat, UInt8.ofNat_toNat]

theorem sequence_four (ha : a.toNat = 0xF0 + c.toNat / 0x40000)
    (hb : b.toNat = 0x80 + c.toNat / 0x1000 % 0x40) (hd : d.toNat = 0x80 + c.toNat / 0x40 % 0x40)
    (he : e.toNat = 0x80 + c.toNat % 0x40) (long : 0x10000 ≤ c.toNat) :
    sequence c = [a, b, d, e] := by
  unfold sequence
  simp only
  rw [if_neg (by omega), if_neg (by omega), if_neg (by omega), ← ha, ← hb, ← hd, ← he,
    UInt8.ofNat_toNat, UInt8.ofNat_toNat, UInt8.ofNat_toNat, UInt8.ofNat_toNat]

end

/-- The bytes begin with the sequence of the code point that is read from them, and that is no
surrogate unless surrogates are taken. -/
theorem append_of_first? {surrogates : Bool} {bs : Bytes} {c : CodePoint} {n : Nat}
    (h : first? surrogates bs = some (c, n)) :
    ∃ rest, bs = sequence c ++ rest ∧ n = (sequence c).length ∧
      (surrogates = false → c.isSurrogate = false) := by
  unfold first? at h
  split at h
  · cases h
  next a rest =>
  simp only at h
  split at h
  · next one =>
    obtain ⟨c', hc, e⟩ := Option.map_eq_some_iff.1 h
    cases e
    have value := toNat_of_ofNat? hc
    rw [sequence_one value.symm (by omega)]
    exact ⟨rest, rfl, rfl, fun _ => isSurrogate_of_range (by omega)⟩
  split at h
  · next two =>
    simp only [Bool.and_eq_true, decide_eq_true_eq] at two
    split at h
    · next b rest =>
      obtain ⟨x, hx, h⟩ := Option.bind_eq_some_iff.1 h
      obtain ⟨c', hc, h⟩ := Option.bind_eq_some_iff.1 h
      cases h
      have value := toNat_of_ofNat? hc
      have hb := toNat_of_tail? hx
      rw [sequence_two (a := a) (b := b) (by omega) (by omega) (by omega) (by omega)]
      exact ⟨rest, rfl, rfl, fun _ => isSurrogate_of_range (by omega)⟩
    · cases h
  split at h
  · next three =>
    simp only [Bool.and_eq_true, decide_eq_true_eq] at three
    split at h
    · next b d rest =>
      obtain ⟨x, hx, h⟩ := Option.bind_eq_some_iff.1 h
      obtain ⟨y, hy, h⟩ := Option.bind_eq_some_iff.1 h
      obtain ⟨c', hc, h⟩ := Option.bind_eq_some_iff.1 h
      split at h
      · cases h
      next allowed =>
      cases h
      rw [Bool.or_eq_true, decide_eq_true_eq, not_or] at allowed
      have value := toNat_of_ofNat? hc
      have hb := toNat_of_tail? hx
      have hd := toNat_of_tail? hy
      rw [sequence_three (a := a) (b := b) (d := d) (by omega) (by omega) (by omega) (by omega)
        (by omega)]
      -- Only three bytes can encode a surrogate, so it is tested for here alone.
      refine ⟨rest, rfl, rfl, ?_⟩
      rintro rfl
      exact Bool.eq_false_iff.2 fun surrogate => allowed.2 (by rw [surrogate]; rfl)
    · cases h
  split at h
  · next four =>
    simp only [Bool.and_eq_true, decide_eq_true_eq] at four
    split at h
    · next b d e rest =>
      obtain ⟨x, hx, h⟩ := Option.bind_eq_some_iff.1 h
      obtain ⟨y, hy, h⟩ := Option.bind_eq_some_iff.1 h
      obtain ⟨z, hz, h⟩ := Option.bind_eq_some_iff.1 h
      obtain ⟨c', hc, h⟩ := Option.bind_eq_some_iff.1 h
      split at h
      · cases h
      next long =>
      cases h
      have value := toNat_of_ofNat? hc
      have hb := toNat_of_tail? hx
      have hd := toNat_of_tail? hy
      have he := toNat_of_tail? hz
      rw [sequence_four (a := a) (b := b) (d := d) (e := e) (by omega) (by omega) (by omega)
        (by omega) (by omega)]
      exact ⟨rest, rfl, rfl, fun _ => isSurrogate_of_range (by omega)⟩
    · cases h
  · cases h

theorem isSurrogate_of_first? {bs : Bytes} {c : CodePoint} {n : Nat}
    (h : first? false bs = some (c, n)) : c.isSurrogate = false := by
  obtain ⟨-, -, -, plain⟩ := append_of_first? h
  exact plain rfl

/-- What is read strictly has no surrogates. -/
theorem isScalar_of_decode_strict {bs : Bytes} {t : Text} (h : decode .strict bs = some t) :
    t.IsScalar := by
  have from_skip (skip : Nat) (bs : Bytes) (t : Text) (h : decodeFrom .strict skip bs = some t) :
      t.IsScalar := by
    induction bs generalizing skip t with
    | nil =>
      rw [decodeFrom] at h
      cases h
      exact List.forall_mem_nil _
    | cons b rest ih =>
      cases skip with
      | succ skip => exact ih skip t h
      | zero =>
        rw [decodeFrom] at h
        split at h
        · next c n hc =>
          obtain ⟨s, hs, rfl⟩ := Option.map_eq_some_iff.1 h
          exact List.forall_mem_cons.2 ⟨isSurrogate_of_first? hc, ih _ s hs⟩
        · cases h
  exact from_skip 0 bs t h

/-! ## What is written is read back -/

theorem toNat_ofNat_byte {n : Nat} (h : n < 0x100) : (UInt8.ofNat n).toNat = n := by
  rw [UInt8.toNat_ofNat']
  omega

theorem ofNat?_eq_some {n : Nat} {c : CodePoint} (h : n = c.toNat) :
    CodePoint.ofNat? n = some c := by
  have bound := c.isLt
  subst h
  rw [CodePoint.ofNat?, dif_pos bound]

theorem tail?_ofNat {x : Nat} (h : x < 0x40) : tail? (.ofNat (0x80 + x)) = some x := by
  have byte : (UInt8.ofNat (0x80 + x)).toNat = 0x80 + x := toNat_ofNat_byte (by omega)
  have range : (decide (0x80 ≤ 0x80 + x) && decide (0x80 + x < 0xC0)) = true := by
    simp
    omega
  rw [tail?, byte, if_pos range, Nat.add_sub_cancel_left]

section
variable {surrogates : Bool} {a b d e : UInt8} {rest : Bytes} {c : CodePoint} {n x y z : Nat}

theorem first?_one (ha : a.toNat = n) (small : n < 0x80) (hc : CodePoint.ofNat? n = some c) :
    first? surrogates (a :: rest) = some (c, 1) := by
  simp [first?, ha, small, hc]

theorem first?_two (ha : a.toNat = 0xC0 + n) (large : 2 ≤ n) (small : n < 0x20)
    (hb : tail? b = some x) (hc : CodePoint.ofNat? (n * 0x40 + x) = some c) :
    first? surrogates (a :: b :: rest) = some (c, 2) := by
  have one : ¬0xC0 + n < 0x80 := by omega
  have two : 0xC2 ≤ 0xC0 + n ∧ 0xC0 + n < 0xE0 := by omega
  simp [first?, ha, one, two, hb, hc]

theorem first?_three (ha : a.toNat = 0xE0 + n) (small : n < 0x10) (hb : tail? b = some x)
    (hd : tail? d = some y) (hc : CodePoint.ofNat? (n * 0x1000 + x * 0x40 + y) = some c)
    (long : 0x800 ≤ c.toNat) (plain : c.isSurrogate = false) :
    first? surrogates (a :: b :: d :: rest) = some (c, 3) := by
  have one : ¬0xE0 + n < 0x80 := by omega
  have two : ¬0xE0 + n < 0xE0 := by omega
  have three : 0xE0 ≤ 0xE0 + n ∧ 0xE0 + n < 0xF0 := by omega
  have short : ¬c.toNat < 0x800 := by omega
  simp [first?, ha, one, two, three, hb, hd, hc, short, plain]

theorem first?_four (ha : a.toNat = 0xF0 + n) (small : n < 5) (hb : tail? b = some x)
    (hd : tail? d = some y) (he : tail? e = some z)
    (hc : CodePoint.ofNat? (n * 0x40000 + x * 0x1000 + y * 0x40 + z) = some c)
    (long : 0x10000 ≤ c.toNat) :
    first? surrogates (a :: b :: d :: e :: rest) = some (c, 4) := by
  have one : ¬0xF0 + n < 0x80 := by omega
  have two : ¬0xF0 + n < 0xE0 := by omega
  have three : ¬0xF0 + n < 0xF0 := by omega
  have four : 0xF0 ≤ 0xF0 + n ∧ 0xF0 + n < 0xF5 := by omega
  have short : ¬c.toNat < 0x10000 := by omega
  have bits : 0xF0 + n - 0xF0 = n := by omega
  unfold first?
  simp only [ha, one, two, three, four, bits, if_false, if_true, decide_false, decide_true,
    Bool.and_false, Bool.and_true, Bool.false_eq_true, Option.bind_eq_bind]
  -- Step by step, so that no product is multiplied out when two terms are compared.
  rw [hb, Option.bind_some, hd, Option.bind_some, he, Option.bind_some, hc, Option.bind_some,
    if_neg short]
  rfl

/-- The sequence of a code point is read from the bytes that begin with it. -/
theorem first?_sequence (plain : c.isSurrogate = false) :
    first? surrogates (sequence c ++ rest) = some (c, (sequence c).length) := by
  have bound := c.isLt
  unfold sequence
  simp only
  split
  · next one => exact first?_one (toNat_ofNat_byte (by omega)) one (ofNat?_eq_some rfl)
  split
  · next one two =>
    exact first?_two (toNat_ofNat_byte (by omega)) (by omega) (by omega) (tail?_ofNat (by omega))
      (ofNat?_eq_some (by omega))
  split
  · next one two three =>
    exact first?_three (toNat_ofNat_byte (by omega)) (by omega) (tail?_ofNat (by omega))
      (tail?_ofNat (by omega)) (ofNat?_eq_some (by omega)) (by omega) plain
  · next one two three =>
    exact first?_four (toNat_ofNat_byte (by omega)) (by omega) (tail?_ofNat (by omega))
      (tail?_ofNat (by omega)) (tail?_ofNat (by omega)) (ofNat?_eq_some (by omega)) (by omega)

end

/-- The bytes of a sequence that was read are passed over. -/
theorem decodeFrom_append (reading : Reading) (read bs : Bytes) :
    decodeFrom reading read.length (read ++ bs) = decodeFrom reading 0 bs := by
  induction read with
  | nil => rfl
  | cons b read ih => exact ih

theorem decode_sequence_append (reading : Reading) {c : CodePoint} (h : c.isSurrogate = false)
    (bs : Bytes) : decode reading (sequence c ++ bs) = (decode reading bs).map (c :: ·) := by
  have first : first? reading.surrogates (sequence c ++ bs) = some (c, (sequence c).length) :=
    first?_sequence h
  cases hc : sequence c with
  | nil => exact absurd hc (sequence_ne_nil c)
  | cons b others =>
    rw [hc] at first
    show decodeFrom reading 0 (b :: (others ++ bs)) = _
    rw [decodeFrom, ← List.cons_append, first]
    show (decodeFrom reading others.length (others ++ bs)).map (c :: ·) = _
    rw [decodeFrom_append]
    rfl

/-- Every reading takes a text without surrogates from its bytes. -/
theorem decode_of_encode? (reading : Reading) {t : Text} {bs : Bytes} (h : encode? t = some bs) :
    decode reading bs = some t := by
  induction t generalizing bs with
  | nil =>
    cases h
    rfl
  | cons c t ih =>
    rw [encode?] at h
    split at h
    · cases h
    next plain =>
    obtain ⟨rest, hr, rfl⟩ := Option.map_eq_some_iff.1 h
    rw [decode_sequence_append reading (by simpa using plain), ih hr]
    rfl

/-- The texts that have bytes are those without surrogates. -/
theorem isScalar_iff_encode? {t : Text} : t.IsScalar ↔ ∃ bs, encode? t = some bs := by
  rw [Text.IsScalar]
  induction t with
  | nil => simp [encode?]
  | cons c t ih =>
    rw [List.forall_mem_cons, ih, encode?]
    cases c.isSurrogate <;> simp

theorem encode?_eq_none_iff {t : Text} : encode? t = none ↔ ¬t.IsScalar := by
  rw [isScalar_iff_encode?, Option.eq_none_iff_forall_ne_some, not_exists]

/-- Texts that can be encoded differ in their bytes. -/
theorem eq_of_encode? {s t : Text} {bs : Bytes} (hs : encode? s = some bs)
    (ht : encode? t = some bs) : s = t := by
  have first := decode_of_encode? .strict hs
  have second := decode_of_encode? .strict ht
  exact Option.some.inj (first.symm.trans second)

theorem eq_of_encodeKept? {s t : Text} {bs : Bytes} (hs : s.IsScalar) (ht : t.IsScalar)
    (h : encodeKept? s = some bs) (h' : encodeKept? t = some bs) : s = t := by
  rw [encodeKept?_eq_encode? hs] at h
  rw [encodeKept?_eq_encode? ht] at h'
  exact eq_of_encode? h h'

/-- A text of ASCII has one byte for every character. -/
theorem encode?_of_isAscii {t : Text} (h : t.IsAscii) : encode? t = some (Bytes.ofAscii t) := by
  induction t with
  | nil => rfl
  | cons c t ih =>
    have small := h c List.mem_cons_self
    have plain : c.isSurrogate = false := isSurrogate_of_range (by omega)
    have first : sequence c = [.ofNat c.toNat] := by
      simp [sequence, small]
    rw [encode?, plain, ih fun d hd => h d (List.mem_cons_of_mem c hd), first]
    rfl

/-- A text of ASCII is read from its bytes, whatever the reading makes of other bytes. -/
theorem decode_ofAscii (reading : Reading) {t : Text} (h : t.IsAscii) :
    decode reading (Bytes.ofAscii t) = some t :=
  decode_of_encode? reading (encode?_of_isAscii h)

end Utf8

end PullAuth
