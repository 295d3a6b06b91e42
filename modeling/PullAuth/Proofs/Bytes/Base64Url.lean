import Mathlib.Data.List.Basic
import PullAuth.Bytes.Base64Url
import PullAuth.Proofs.Text.Encoded

/-!
Base64 for URLs without padding, through the values of its characters. Bytes are cut into sextets
(`sextets`), of which every encoded text consists (`encode_eq`), and the reader puts them together
again, whatever the number of bytes is modulo three (`decode?_encode`). A segment is read exactly if
it is such a text, where the padding may stand behind it (`decode?_eq_some_iff`).
-/
namespace PullAuth.Base64Url

/-- The values of the characters for the bytes. -/
def sextets : Bytes → List Nat
  | [] => []
  | [a] => [a.toNat / 4, a.toNat % 4 * 16]
  | [a, b] => [a.toNat / 4, a.toNat % 4 * 16 + b.toNat / 16, b.toNat % 16 * 4]
  | a :: b :: c :: rest =>
    a.toNat / 4 :: (a.toNat % 4 * 16 + b.toNat / 16) :: (b.toNat % 16 * 4 + c.toNat / 64) ::
      (c.toNat % 64) :: sextets rest

/-- No number of values is one more than a multiple of four. -/
theorem length_sextets (bs : Bytes) : (sextets bs).length % 4 ≠ 1 := by
  induction bs using sextets.induct with
  | case1 => decide
  | case2 => simp [sextets]
  | case3 => simp [sextets]
  | case4 a b c rest ih =>
    simp only [sextets, List.length_cons]
    omega

/-- The character of a value. -/
def digit (n : Nat) : CodePoint := ofStandard (Base64.digit n)

theorem lt_of_mem_sextets {bs : Bytes} {n : Nat} (h : n ∈ sextets bs) : n < 64 := by
  induction bs using sextets.induct with
  | case1 => cases h
  | case2 a =>
    have ha := a.toNat_lt
    simp only [sextets, List.mem_cons, List.not_mem_nil, or_false] at h
    omega
  | case3 a b =>
    have ha := a.toNat_lt
    have hb := b.toNat_lt
    simp only [sextets, List.mem_cons, List.not_mem_nil, or_false] at h
    omega
  | case4 a b c rest ih =>
    have ha := a.toNat_lt
    have hb := b.toNat_lt
    have hc := c.toNat_lt
    simp only [sextets, List.mem_cons] at h
    rcases h with h | h | h | h | h
    · omega
    · omega
    · omega
    · omega
    · exact ih h

/-! ## The text -/

theorem dropWhile_of_forall {α : Type} {p : α → Bool} {l : List α} (h : ∀ a ∈ l, p a = false) :
    l.dropWhile p = l := by
  cases l with
  | nil => rfl
  | cons a l =>
    rw [List.dropWhile_cons, h a List.mem_cons_self]
    rfl

theorem digit_ne_pad : ∀ n < 64, Base64.digit n ≠ '=' := by decide

/-- The padding behind so many characters of data. -/
def padding (count : Nat) : Text := List.replicate ((4 - count % 4) % 4) '='

/-- Padding stands behind the characters of the values and nowhere else. -/
theorem encode_eq_padded (bs : Bytes) :
    Base64.encode bs = (sextets bs).map Base64.digit ++ padding (sextets bs).length := by
  induction bs using sextets.induct with
  | case1 => rfl
  | case2 a => rfl
  | case3 a b => rfl
  | case4 a b c rest ih =>
    have same : padding (sextets (a :: b :: c :: rest)).length = padding (sextets rest).length := by
      simp only [sextets, List.length_cons, padding, Nat.add_assoc, Nat.add_mod_right]
    rw [Base64.encode, ih, same]
    rfl

theorem encode_eq (bs : Bytes) : encode bs = (sextets bs).map digit := by
  have data : ∀ c ∈ (sextets bs).map Base64.digit, c ≠ '=' := by
    intro c hc
    obtain ⟨n, hn, rfl⟩ := List.mem_map.1 hc
    exact digit_ne_pad n (lt_of_mem_sextets hn)
  have pads : ∀ c ∈ padding (sextets bs).length, c = '=' := fun c => List.eq_of_mem_replicate
  have kept : Text.trimEnd (· = '=')
      ((sextets bs).map Base64.digit ++ padding (sextets bs).length) =
      (sextets bs).map Base64.digit := by
    rw [Text.trimEnd, List.reverse_append, List.dropWhile_append_of_pos (by simpa using pads),
      dropWhile_of_forall (by simpa using data), List.reverse_reverse]
  rw [encode, encode_eq_padded, kept, List.map_map]
  rfl

theorem length_encode (bs : Bytes) : (encode bs).length % 4 ≠ 1 := by
  rw [encode_eq, List.length_map]
  exact length_sextets bs

/-- An encoded text is made of characters of the alphabet; neither the dot nor the equals sign is
one. -/
theorem of_mem_encode {bs : Bytes} {c : CodePoint} (h : c ∈ encode bs) :
    c.toNat < 0x80 ∧ c ≠ '.' ∧ c ≠ '=' := by
  have digits : ∀ n < 64, (digit n).toNat < 0x80 ∧ digit n ≠ '.' ∧ digit n ≠ '=' := by decide
  rw [encode_eq] at h
  obtain ⟨n, hn, rfl⟩ := List.mem_map.1 h
  exact digits n (lt_of_mem_sextets hn)

/-- No padding stands among its bytes. -/
theorem pad_not_mem_ofAscii_encode (bs : Bytes) : (0x3D : UInt8) ∉ Bytes.ofAscii (encode bs) := by
  intro pad
  have here := (Utf8.mem_ofAscii_iff (fun c hc => (of_mem_encode hc).1) (by decide)).1 pad
  exact (of_mem_encode here).2.2 rfl

/-! ## Reading it back -/

theorem value?_digit : ∀ n < 64, value? (.ofNat (digit n).toNat) = some n := by decide

theorem mapM_value?_digits {values : List Nat} (h : ∀ n ∈ values, n < 64) :
    (Bytes.ofAscii (values.map digit)).mapM value? = some values := by
  induction values with
  | nil => rfl
  | cons n values ih =>
    obtain ⟨first, others⟩ := List.forall_mem_cons.1 h
    rw [List.map_cons, Bytes.ofAscii, List.map_cons, List.mapM_cons, value?_digit n first]
    show (do
      let rest ← (Bytes.ofAscii (values.map digit)).mapM value?
      some (n :: rest)) = _
    rw [ih others]
    rfl

theorem ofNat_eq {n : Nat} {b : UInt8} (h : n = b.toNat) : UInt8.ofNat n = b := by
  rw [h, UInt8.ofNat_toNat]

/-- The bits of the sextets are those of the bytes, and those left over are zero. -/
theorem assemble_sextets (bs : Bytes) : assemble (sextets bs) = some bs := by
  induction bs using sextets.induct with
  | case1 => rfl
  | case2 a =>
    have whole : UInt8.ofNat (a.toNat / 4 * 4 + a.toNat % 4 * 16 / 16) = a := ofNat_eq (by omega)
    have left : a.toNat % 4 * 16 % 16 = 0 := by omega
    rw [sextets, assemble, if_pos left, whole]
  | case3 a b =>
    have hb := b.toNat_lt
    have first : UInt8.ofNat (a.toNat / 4 * 4 + (a.toNat % 4 * 16 + b.toNat / 16) / 16) = a :=
      ofNat_eq (by omega)
    have second : UInt8.ofNat ((a.toNat % 4 * 16 + b.toNat / 16) % 16 * 16 +
        b.toNat % 16 * 4 / 4) = b := ofNat_eq (by omega)
    have left : b.toNat % 16 * 4 % 4 = 0 := by omega
    rw [sextets, assemble, if_pos left, first, second]
  | case4 a b c rest ih =>
    have hb := b.toNat_lt
    have hc := c.toNat_lt
    have first : UInt8.ofNat (a.toNat / 4 * 4 + (a.toNat % 4 * 16 + b.toNat / 16) / 16) = a :=
      ofNat_eq (by omega)
    have second : UInt8.ofNat ((a.toNat % 4 * 16 + b.toNat / 16) % 16 * 16 +
        (b.toNat % 16 * 4 + c.toNat / 64) / 4) = b := ofNat_eq (by omega)
    have third : UInt8.ofNat ((b.toNat % 16 * 4 + c.toNat / 64) % 4 * 64 + c.toNat % 64) = c :=
      ofNat_eq (by omega)
    rw [sextets, assemble, ih, first, second, third]
    rfl

/-- Behind the text of the bytes padding is taken that completes it. -/
theorem decode?_padded (bs : Bytes) {pads : Nat} (few : pads ≤ 2)
    (complete : pads = 0 ∨ ((encode bs).length + pads) % 4 = 0) :
    decode? (Bytes.ofAscii (encode bs) ++ List.replicate pads 0x3D) = some bs := by
  have no_pad : ∀ b ∈ (Bytes.ofAscii (encode bs)).reverse, b ≠ 0x3D := by
    rintro b hb rfl
    exact pad_not_mem_ofAscii_encode bs (List.mem_reverse.1 hb)
  have body : ((Bytes.ofAscii (encode bs) ++ List.replicate pads 0x3D).reverse.dropWhile
      (· = 0x3D)).reverse = Bytes.ofAscii (encode bs) := by
    rw [List.reverse_append, List.dropWhile_append_of_pos (by simp),
      dropWhile_of_forall (by simpa using no_pad), List.reverse_reverse]
  have length : (Bytes.ofAscii (encode bs) ++ List.replicate pads 0x3D).length =
      (encode bs).length + pads := by
    rw [List.length_append, List.length_replicate, Bytes.ofAscii, List.length_map]
  have ascii : (Bytes.ofAscii (encode bs)).length = (encode bs).length := List.length_map _
  have taken : (decide (2 < (encode bs).length + pads - (encode bs).length) ||
      (decide (0 < (encode bs).length + pads - (encode bs).length) &&
        decide (((encode bs).length + pads) % 4 ≠ 0))) = false := by
    simp only [Bool.or_eq_false_iff, Bool.and_eq_false_iff, decide_eq_false_iff_not]
    omega
  unfold decode?
  simp only [body, length, ascii, taken, Bool.false_eq_true, if_false]
  rw [encode_eq, mapM_value?_digits fun n => lt_of_mem_sextets, Option.bind_some,
    assemble_sextets]

/-- The bytes are read back from their text. -/
theorem decode?_encode (bs : Bytes) : decode? (Bytes.ofAscii (encode bs)) = some bs := by
  have read := decode?_padded bs (Nat.zero_le 2) (.inl rfl)
  rwa [List.replicate_zero, List.append_nil] at read

/-! ## Only such texts are read -/

/-- A text of the bytes as a segment has it: all of the padding stands behind it, or none. -/
def IsSegment (t : Text) (bs : Bytes) : Prop :=
  t = encode bs ∨ t = encode bs ++ padding (encode bs).length

theorem digit_of_value? {b : UInt8} {n : Nat} (h : value? b = some n) :
    n < 64 ∧ UInt8.ofNat (digit n).toNat = b := by
  have all : ∀ k < 256, ∀ n ∈ value? (.ofNat k),
      n < 64 ∧ UInt8.ofNat (digit n).toNat = UInt8.ofNat k := by decide +kernel
  have known := all b.toNat b.toNat_lt n
  rw [UInt8.ofNat_toNat] at known
  exact known h

theorem digits_of_mapM_value? {body : Bytes} {values : List Nat}
    (h : body.mapM value? = some values) :
    body = Bytes.ofAscii (values.map digit) ∧ ∀ n ∈ values, n < 64 := by
  induction body generalizing values with
  | nil =>
    cases h
    exact ⟨rfl, nofun⟩
  | cons b body ih =>
    rw [List.mapM_cons, Option.bind_eq_bind, Option.bind_eq_some_iff] at h
    obtain ⟨n, hn, h⟩ := h
    obtain ⟨others, ho, e⟩ := Option.bind_eq_some_iff.1 h
    cases e
    obtain ⟨small, byte⟩ := digit_of_value? hn
    obtain ⟨rfl, rest⟩ := ih ho
    exact ⟨by rw [← byte]; rfl, List.forall_mem_cons.2 ⟨small, rest⟩⟩

/-- The values that bytes are put together of are their sextets. -/
theorem sextets_of_assemble {values : List Nat} (small : ∀ n ∈ values, n < 64) {bs : Bytes}
    (h : assemble values = some bs) : values = sextets bs := by
  have byte {n : Nat} (hn : n < 256) : (UInt8.ofNat n).toNat = n := by
    rw [UInt8.toNat_ofNat']
    omega
  induction values using assemble.induct generalizing bs with
  | case1 =>
    cases h
    rfl
  | case2 => cases h
  | case3 a b left =>
    simp only [List.forall_mem_cons, List.not_mem_nil, false_implies, implies_true, and_true]
      at small
    rw [assemble, if_pos left] at h
    cases h
    rw [sextets, byte (by omega)]
    simp only [List.cons.injEq, and_true]
    omega
  | case4 a b left =>
    rw [assemble, if_neg left] at h
    cases h
  | case5 a b c left =>
    simp only [List.forall_mem_cons, List.not_mem_nil, false_implies, implies_true, and_true]
      at small
    rw [assemble, if_pos left] at h
    cases h
    rw [sextets, byte (by omega), byte (by omega)]
    simp only [List.cons.injEq, and_true]
    omega
  | case6 a b c left =>
    rw [assemble, if_neg left] at h
    cases h
  | case7 a b c d values ih =>
    simp only [List.forall_mem_cons] at small
    obtain ⟨ha, hb, hc, hd, others⟩ := small
    rw [assemble, Option.map_eq_some_iff] at h
    obtain ⟨rest, hr, rfl⟩ := h
    show _ = sextets (_ :: _ :: _ :: rest)
    rw [sextets, ← ih others hr, byte (by omega), byte (by omega), byte (by omega)]
    simp only [List.cons.injEq, and_true]
    omega

/-- The bytes of a text with its padding. -/
theorem ofAscii_padded (t : Text) :
    Bytes.ofAscii (t ++ padding t.length) =
      Bytes.ofAscii t ++ List.replicate ((4 - t.length % 4) % 4) 0x3D := by
  rw [Bytes.ofAscii, List.map_append, padding, List.map_replicate]
  rfl

/-- A segment is cut into a body and the padding behind it. -/
theorem append_of_body (segment : Bytes) :
    ∃ pads, segment = (segment.reverse.dropWhile (· = 0x3D)).reverse ++
      List.replicate pads 0x3D := by
  refine ⟨(segment.reverse.takeWhile (· = 0x3D)).length, ?_⟩
  have pads : segment.reverse.takeWhile (· = 0x3D) =
      List.replicate (segment.reverse.takeWhile (· = 0x3D)).length 0x3D :=
    List.eq_replicate_of_mem fun b hb =>
      of_decide_eq_true (List.all_eq_true.1 List.all_takeWhile b hb)
  rw [← List.reverse_inj, List.reverse_append, List.reverse_reverse, List.reverse_replicate,
    ← pads, List.takeWhile_append_dropWhile]

/-- The bytes that are read are those of the texts of segments. -/
theorem decode?_eq_some_iff {segment bs : Bytes} :
    decode? segment = some bs ↔ ∃ t, segment = Bytes.ofAscii t ∧ IsSegment t bs := by
  constructor
  · intro h
    obtain ⟨pads, cut⟩ := append_of_body segment
    unfold decode? at h
    simp only at h
    generalize (segment.reverse.dropWhile (· = 0x3D)).reverse = body at *
    subst cut
    split at h
    · cases h
    next taken =>
    obtain ⟨values, hv, ha⟩ := Option.bind_eq_some_iff.1 h
    obtain ⟨rfl, small⟩ := digits_of_mapM_value? hv
    obtain rfl := sextets_of_assemble small ha
    rw [← encode_eq] at taken ⊢
    have ascii : (Bytes.ofAscii (encode bs)).length = (encode bs).length := List.length_map _
    have quads := length_encode bs
    simp only [List.length_append, List.length_replicate, ascii, Bool.or_eq_true,
      Bool.and_eq_true, decide_eq_true_eq] at taken
    by_cases none : pads = 0
    · subst none
      exact ⟨encode bs, List.append_nil _, .inl rfl⟩
    · have all : pads = (4 - (encode bs).length % 4) % 4 := by omega
      exact ⟨encode bs ++ padding (encode bs).length, by rw [ofAscii_padded, all], .inr rfl⟩
  · rintro ⟨t, rfl, rfl | rfl⟩
    · exact decode?_encode bs
    · have quads := length_encode bs
      rw [ofAscii_padded]
      exact decode?_padded bs (by omega) (.inr (by omega))

/-- Only ASCII stands in a segment, and no dot. -/
theorem IsSegment.of_mem {t : Text} {bs : Bytes} (h : IsSegment t bs) {c : CodePoint}
    (hc : c ∈ t) : c.toNat < 0x80 ∧ c ≠ '.' := by
  rcases h with rfl | rfl
  · exact ⟨(of_mem_encode hc).1, (of_mem_encode hc).2.1⟩
  · rcases List.mem_append.1 hc with hc | hc
    · exact ⟨(of_mem_encode hc).1, (of_mem_encode hc).2.1⟩
    · rw [List.eq_of_mem_replicate hc]
      decide

end PullAuth.Base64Url
