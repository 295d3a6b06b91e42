import PullAuth.Text.Utf8

/-!
The bytes of texts that are encoded with surrogates kept. The bytes of a text are those of its code
points one after another (`encodeKept?_append`), a text of ASCII has one byte for every character
(`encodeKept?_of_ascii`), and a byte of ASCII stands in the encoding exactly where its character
stands in the text (`mem_encodeKept?_iff`): no part of a longer sequence looks like one.
-/
namespace PullAuth.Utf8

/-- The bytes of one code point: the byte that a surrogate keeps, or its sequence. -/
def keptSequence? (c : CodePoint) : Option Bytes :=
  match keptByte? c with
  | some b => some [b]
  | none => if c.isSurrogate then none else some (sequence c)

/-- The bytes outside ASCII are kept, each by its own surrogate. -/
theorem keptByte?_eq_some_iff {c : CodePoint} {b : UInt8} :
    keptByte? c = some b ↔ 0x80 ≤ b.toNat ∧ c = kept b := by
  have bound := b.toNat_lt
  constructor
  · intro h
    rw [keptByte?] at h
    split at h
    · next range =>
      simp only [Bool.and_eq_true, decide_eq_true_eq] at range
      have value : b.toNat = c.toNat - 0xDC00 := by
        rw [← Option.some.inj h, UInt8.toNat_ofNat']
        omega
      obtain ⟨n, hn⟩ := c
      simp only [kept, CodePoint.mk.injEq]
      simp only at range value
      omega
    · cases h
  · rintro ⟨large, rfl⟩
    have number : (kept b).toNat = 0xDC00 + b.toNat := rfl
    rw [keptByte?, number, if_pos (by simp; omega), Nat.add_sub_cancel_left, UInt8.ofNat_toNat]

theorem encodeKept?_cons (c : CodePoint) (t : Text) :
    encodeKept? (c :: t) =
      (keptSequence? c).bind fun first => (encodeKept? t).map (first ++ ·) := by
  rw [encodeKept?, keptSequence?]
  cases keptByte? c with
  | some b => rfl
  | none => by_cases h : c.isSurrogate <;> simp [h]

theorem encodeKept?_append (s t : Text) :
    encodeKept? (s ++ t) =
      (encodeKept? s).bind fun first => (encodeKept? t).map (first ++ ·) := by
  induction s with
  | nil => simp [encodeKept?]
  | cons c s ih =>
    rw [List.cons_append, encodeKept?_cons, encodeKept?_cons, ih]
    cases keptSequence? c with
    | none => rfl
    | some first =>
      cases encodeKept? s with
      | none => rfl
      | some middle => cases encodeKept? t <;> simp

theorem encodeKept?_append_eq_some {s t : Text} {a b : Bytes} (hs : encodeKept? s = some a)
    (ht : encodeKept? t = some b) : encodeKept? (s ++ t) = some (a ++ b) := by
  rw [encodeKept?_append, hs, ht]
  rfl

theorem exists_of_encodeKept?_append {s t : Text} {bs : Bytes}
    (h : encodeKept? (s ++ t) = some bs) :
    ∃ a b, encodeKept? s = some a ∧ encodeKept? t = some b ∧ bs = a ++ b := by
  rw [encodeKept?_append, Option.bind_eq_some_iff] at h
  obtain ⟨a, ha, rest⟩ := h
  obtain ⟨b, hb, rfl⟩ := Option.map_eq_some_iff.1 rest
  exact ⟨a, b, ha, hb, rfl⟩

/-! ## Bytes of ASCII -/

theorem keptSequence?_of_ascii {c : CodePoint} (h : c.toNat < 0x80) :
    keptSequence? c = some [.ofNat c.toNat] := by
  have kept : keptByte? c = none := by
    rw [keptByte?, if_neg]
    simp only [Bool.and_eq_true, decide_eq_true_eq, not_and]
    omega
  have plain : c.isSurrogate = false := by
    rw [CodePoint.isSurrogate, Bool.and_eq_false_iff]
    left
    rw [decide_eq_false_iff_not]
    omega
  simp [keptSequence?, kept, plain, sequence, h]

theorem encodeKept?_of_ascii {t : Text} (h : ∀ c ∈ t, c.toNat < 0x80) :
    encodeKept? t = some (Bytes.ofAscii t) := by
  induction t with
  | nil => rfl
  | cons c t ih =>
    rw [encodeKept?_cons, keptSequence?_of_ascii (h c List.mem_cons_self),
      ih fun d hd => h d (List.mem_cons_of_mem c hd)]
    rfl

/-- Only a character of ASCII has a byte of ASCII in its sequence. -/
theorem mem_sequence_iff (c : CodePoint) {b : UInt8} (hb : b.toNat < 0x80) :
    b ∈ sequence c ↔ c = .ofByte b := by
  have hc := c.isLt
  have char : c = .ofByte b ↔ c.toNat = b.toNat := by
    cases c
    simp [CodePoint.ofByte]
  rw [char]
  -- All bytes of a longer sequence are 0x80 or more, and so is its code point.
  unfold sequence
  simp only
  split
  · rw [List.mem_singleton, ← UInt8.toNat_inj, UInt8.toNat_ofNat']
    omega
  · split
    · simp only [List.mem_cons, List.not_mem_nil, or_false, ← UInt8.toNat_inj,
        UInt8.toNat_ofNat']
      omega
    · split
      · simp only [List.mem_cons, List.not_mem_nil, or_false, ← UInt8.toNat_inj,
          UInt8.toNat_ofNat']
        omega
      · simp only [List.mem_cons, List.not_mem_nil, or_false, ← UInt8.toNat_inj,
          UInt8.toNat_ofNat']
        omega

theorem mem_keptSequence?_iff {c : CodePoint} {u : Bytes} (h : keptSequence? c = some u)
    {b : UInt8} (hb : b.toNat < 0x80) : b ∈ u ↔ c = .ofByte b := by
  rw [keptSequence?] at h
  cases hk : keptByte? c with
  | none =>
    rw [hk] at h
    simp only at h
    split at h
    · cases h
    · cases h
      exact mem_sequence_iff c hb
  | some k =>
    rw [hk] at h
    cases h
    -- A kept byte is outside ASCII, and so is the surrogate that keeps it.
    obtain ⟨large, rfl⟩ := keptByte?_eq_some_iff.1 hk
    constructor
    · intro hm
      rw [List.mem_singleton] at hm
      rw [hm] at hb
      omega
    · intro e
      have number := congrArg CodePoint.toNat e
      simp only [kept, CodePoint.ofByte] at number
      omega

/-- A byte of ASCII stands in the encoding exactly if its character stands in the text. -/
theorem mem_encodeKept?_iff {t : Text} {bs : Bytes} (h : encodeKept? t = some bs) {b : UInt8}
    (hb : b.toNat < 0x80) : b ∈ bs ↔ CodePoint.ofByte b ∈ t := by
  induction t generalizing bs with
  | nil =>
    cases h
    simp
  | cons c t ih =>
    rw [encodeKept?_cons, Option.bind_eq_some_iff] at h
    obtain ⟨first, hf, hr⟩ := h
    obtain ⟨rest, ht, rfl⟩ := Option.map_eq_some_iff.1 hr
    rw [List.mem_append, List.mem_cons, mem_keptSequence?_iff hf hb, ih ht, eq_comm]

theorem mem_ofAscii_iff {t : Text} (h : ∀ c ∈ t, c.toNat < 0x80) {b : UInt8} (hb : b.toNat < 0x80) :
    b ∈ Bytes.ofAscii t ↔ CodePoint.ofByte b ∈ t :=
  mem_encodeKept?_iff (encodeKept?_of_ascii h) hb

theorem sequence_ne_nil (c : CodePoint) : sequence c ≠ [] := by
  unfold sequence
  simp only
  split
  · simp
  · split
    · simp
    · split <;> simp

theorem keptSequence?_ne_nil {c : CodePoint} {u : Bytes} (h : keptSequence? c = some u) :
    u ≠ [] := by
  rw [keptSequence?] at h
  split at h
  · cases h
    simp
  · split at h
    · cases h
    · cases h
      exact sequence_ne_nil c

theorem length_le_of_encodeKept? {t : Text} {bs : Bytes} (h : encodeKept? t = some bs) :
    t.length ≤ bs.length := by
  induction t generalizing bs with
  | nil => simp
  | cons c t ih =>
    rw [encodeKept?_cons, Option.bind_eq_some_iff] at h
    obtain ⟨first, hf, hr⟩ := h
    obtain ⟨rest, ht, rfl⟩ := Option.map_eq_some_iff.1 hr
    -- Every code point has at least one byte.
    have := List.length_pos_iff.2 (keptSequence?_ne_nil hf)
    have := ih ht
    simp only [List.length_cons, List.length_append]
    omega

theorem ne_nil_of_encodeKept? {t : Text} {bs : Bytes} (h : encodeKept? t = some bs) (hne : t ≠ []) :
    bs ≠ [] := by
  rintro rfl
  exact hne (List.length_eq_zero_iff.1 (Nat.le_zero.1 (length_le_of_encodeKept? h)))

theorem keptByte?_of_not_isSurrogate {c : CodePoint} (h : c.isSurrogate = false) :
    keptByte? c = none := by
  rw [keptByte?, if_neg]
  simp only [CodePoint.isSurrogate, Bool.and_eq_false_iff, decide_eq_false_iff_not] at h
  simp only [Bool.and_eq_true, decide_eq_true_eq]
  omega

/-- Without surrogates there is nothing to keep. -/
theorem encodeKept?_eq_encode? {t : Text} (h : ∀ c ∈ t, c.isSurrogate = false) :
    encodeKept? t = encode? t := by
  induction t with
  | nil => rfl
  | cons c t ih =>
    obtain ⟨first, others⟩ := List.forall_mem_cons.1 h
    rw [encodeKept?, encode?, keptByte?_of_not_isSurrogate first, first, ih others]

end PullAuth.Utf8
