import PullAuth.Proofs.Bytes.Base64Url
import PullAuth.Proofs.Text.Strict

/-!
Base64 with the standard alphabet. The text of the bytes is ASCII (`isAscii_encode`). Every
character of a quad but the first completes a byte (`gathered`), and behind the last quad the
padding fills up what is left over: such texts, and no others, are read (`decode_eq_ok_iff`). The
text of the bytes is one of them, so the bytes are read back from it (`decode_encode`).
-/
namespace PullAuth.Base64

/-- What holds of the characters of the alphabet and of padding holds throughout a text. -/
theorem forall_mem_encode {P : CodePoint → Prop} (digits : ∀ n < 64, P (digit n)) (pad : P '=')
    (bs : Bytes) : ∀ c ∈ encode bs, P c := by
  intro c hc
  rw [Base64Url.encode_eq_padded, List.mem_append] at hc
  rcases hc with hc | hc
  · obtain ⟨n, hn, rfl⟩ := List.mem_map.1 hc
    exact digits n (Base64Url.lt_of_mem_sextets hn)
  · rw [List.eq_of_mem_replicate hc]
    exact pad

theorem isAscii_encode (bs : Bytes) : (encode bs).IsAscii :=
  forall_mem_encode (by decide) (by decide) bs

/-! ## The texts that are read -/

/-- The bytes that values of characters complete; bits left over are dropped. -/
def gathered : List Nat → Bytes
  | [] => []
  | [_] => []
  | [a, b] => [.ofNat (a * 4 + b / 16)]
  | [a, b, c] => [.ofNat (a * 4 + b / 16), .ofNat (b % 16 * 16 + c / 4)]
  | a :: b :: c :: d :: rest =>
    .ofNat (a * 4 + b / 16) :: .ofNat (b % 16 * 16 + c / 4) :: .ofNat (c % 4 * 64 + d) ::
      gathered rest

/-- Behind so many characters of data so many characters of padding are taken: what the last quad
needs, and any number where it needs none. -/
def Fills (count pads : Nat) : Prop :=
  count % 4 = 0 ∨ 2 ≤ count % 4 ∧ count % 4 + pads = 4

/-- A text writes the bytes: in front of its padding, where data has to stand, are characters of the
alphabet that complete them. -/
def Writes (t : Text) (bs : Bytes) : Prop :=
  ∃ values pads, t = values.map digit ++ List.replicate pads (.ofChar '=') ∧
    (∀ n ∈ values, n < 64) ∧ (values = [] → pads = 0) ∧ Fills values.length pads ∧
    bs = gathered values

/-- A character with a value is the one of its value. -/
theorem digit_of_value? {c : CodePoint} {n : Nat} (h : value? c = some n) :
    n < 64 ∧ digit n = c := by
  have small : c.toNat < 0x80 := by
    simp only [value?, Bool.and_eq_true, decide_eq_true_eq] at h
    split_ifs at h <;> omega
  have all : ∀ k : Fin 0x80, ∀ n ∈ value? ⟨k.val, Nat.lt_trans k.isLt (by decide)⟩,
      n < 64 ∧ digit n = ⟨k.val, Nat.lt_trans k.isLt (by decide)⟩ := by decide +kernel
  exact all ⟨c.toNat, small⟩ n h

theorem digit_injective {m n : Nat} (hm : m < 64) (hn : n < 64) (h : digit m = digit n) :
    m = n := by
  have same := value?_digit m hm
  rw [h, value?_digit n hn] at same
  exact (Option.some.inj same).symm

section
variable {count bits pads : Nat} {t : Text} {bs : Bytes}

/-- A text ends behind a whole quad. -/
theorem decodeFrom_nil {p : Progress} : decodeFrom p [] = .ok bs ↔ bs = [] ∧ p.count % 4 = 0 := by
  rw [decodeFrom]
  split
  · next whole =>
    rw [Except.ok.injEq, eq_comm, and_iff_left whole]
  · next lonely => exact iff_of_false nofun fun h => by omega
  · next not_whole _ => exact iff_of_false nofun fun h => not_whole h.2

theorem eq_of_pads {c : CodePoint} (h : c :: t = List.replicate pads (.ofChar '=')) : c = '=' :=
  List.eq_of_mem_replicate (h ▸ List.mem_cons_self)

/-- Padding is taken off a text character by character. -/
theorem cons_eq_pads_iff {c : CodePoint} {P : Nat → Prop} :
    (∃ more, c :: t = List.replicate more (.ofChar '=') ∧ P more) ↔
      c = '=' ∧ ∃ more, t = List.replicate more (.ofChar '=') ∧ P (more + 1) := by
  constructor
  · rintro ⟨_ | more, h, holds⟩
    · cases h
    · obtain ⟨first, others⟩ := List.cons.inj h
      exact ⟨first, more, others, holds⟩
  · rintro ⟨rfl, more, rfl, holds⟩
    exact ⟨more + 1, rfl, holds⟩

/-- Once padding has begun, only what is left of it is taken. -/
theorem decodeFrom_padded (room : count % 4 + pads < 4) :
    decodeFrom ⟨count, bits, pads, true⟩ t = .ok bs ↔
      bs = [] ∧ ∃ more, t = List.replicate more (.ofChar '=') ∧
        (count % 4 = 0 ∨ 2 ≤ count % 4 ∧ count % 4 + (pads + more) = 4) := by
  induction t generalizing pads with
  | nil =>
    rw [decodeFrom_nil]
    refine and_congr_right fun _ => ⟨fun whole => ⟨0, rfl, .inl whole⟩, ?_⟩
    rintro ⟨_ | more, h, fills⟩
    · show count % 4 = 0
      omega
    · cases h
  | cons c t ih =>
    rw [cons_eq_pads_iff, decodeFrom]
    by_cases pad : c = '='
    · rw [if_pos pad, and_iff_right pad]
      simp only
      by_cases quad : 2 ≤ count % 4
      · rw [if_pos quad]
        by_cases last : 4 ≤ count % 4 + (pads + 1)
        · rw [if_pos last]
          cases t with
          | nil =>
            rw [List.isEmpty_nil, if_pos rfl, Except.ok.injEq, eq_comm]
            exact (and_iff_left ⟨0, rfl, by omega⟩).symm
          | cons d t =>
            refine iff_of_false nofun ?_
            rintro ⟨-, _ | more, h, fills⟩
            · cases h
            · omega
        · rw [if_neg last, ih (by omega)]
          simp only [Nat.add_assoc, Nat.add_comm 1]
      · rw [if_neg quad, ih room]
        refine and_congr_right fun _ => exists_congr fun more => and_congr_right fun _ => ?_
        omega
    · rw [if_neg pad]
      refine iff_of_false ?_ fun h => pad h.2.1
      split
      · exact nofun
      · exact nofun

/-- The bytes that values complete one after another. -/
def completed (p : Progress) : List Nat → Bytes
  | [] => []
  | n :: values => (p.take n).1 ++ completed (p.take n).2 values

/-- What is left of a text writes the rest of the bytes, if there was no padding before. -/
def WritesFrom (count bits : Nat) (t : Text) (bs : Bytes) : Prop :=
  ∃ values pads, t = values.map digit ++ List.replicate pads (.ofChar '=') ∧
    (∀ n ∈ values, n < 64) ∧ Fills (count + values.length) pads ∧
    bs = completed ⟨count, bits, 0, false⟩ values

theorem writesFrom_nil : WritesFrom count bits [] bs ↔ bs = [] ∧ count % 4 = 0 := by
  constructor
  · rintro ⟨_ | ⟨n, values⟩, pads, h, -, fills, rfl⟩
    · cases pads with
      | zero =>
        refine ⟨rfl, ?_⟩
        rw [Fills, List.length_nil] at fills
        omega
      | succ pads => cases h
    · cases h
  · rintro ⟨rfl, whole⟩
    exact ⟨[], 0, rfl, nofun, .inl whole, rfl⟩

theorem writesFrom_pad : WritesFrom count bits (.ofChar '=' :: t) bs ↔
    bs = [] ∧ ∃ more, t = List.replicate more (.ofChar '=') ∧ Fills count (more + 1) := by
  constructor
  · rintro ⟨_ | ⟨n, values⟩, pads, h, small, fills, rfl⟩
    · exact ⟨rfl, (cons_eq_pads_iff.1 ⟨pads, h, fills⟩).2⟩
    · exact absurd (List.cons.inj h).1.symm
        (Base64Url.digit_ne_pad n (small n List.mem_cons_self))
  · rintro ⟨rfl, more, rfl, fills⟩
    exact ⟨[], more + 1, rfl, nofun, fills, rfl⟩

/-- Where data goes on, the values begin with the value of the first character. -/
theorem writesFrom_digit {n bits' : Nat} (hn : n < 64)
    (next : (Progress.take ⟨count, bits, 0, false⟩ n).2 = ⟨count + 1, bits', 0, false⟩) :
    WritesFrom count bits (digit n :: t) bs ↔ ∃ rest, WritesFrom (count + 1) bits' t rest ∧
      bs = (Progress.take ⟨count, bits, 0, false⟩ n).1 ++ rest := by
  have shift (values : List Nat) : count + (values.length + 1) = count + 1 + values.length := by
    omega
  constructor
  · rintro ⟨_ | ⟨m, values⟩, pads, h, small, fills, rfl⟩
    · exact absurd (eq_of_pads h) (Base64Url.digit_ne_pad n hn)
    · obtain ⟨hm, others⟩ := List.forall_mem_cons.1 small
      obtain ⟨first, rfl⟩ := List.cons.inj h
      obtain rfl := digit_injective hn hm first
      rw [List.length_cons, shift] at fills
      exact ⟨_, ⟨values, pads, rfl, others, fills, rfl⟩, by rw [completed, next]⟩
  · rintro ⟨rest, ⟨values, pads, rfl, small, fills, rfl⟩, rfl⟩
    refine ⟨n :: values, pads, rfl, List.forall_mem_cons.2 ⟨hn, small⟩, ?_, ?_⟩
    · rwa [List.length_cons, shift]
    · rw [completed, next]

theorem not_writesFrom {c : CodePoint} (pad : c ≠ '=') (foreign : value? c = none) :
    ¬WritesFrom count bits (c :: t) bs := by
  rintro ⟨_ | ⟨n, values⟩, pads, h, small, -, -⟩
  · exact pad (eq_of_pads h)
  · rw [(List.cons.inj h).1, value?_digit n (small n List.mem_cons_self)] at foreign
    cases foreign

/-- One character of data, and what it completes in front of the rest. -/
theorem decodeFrom_digit {n : Nat} (hn : n < 64) :
    decodeFrom ⟨count, bits, 0, false⟩ (digit n :: t) = .ok bs ↔
      ∃ rest, decodeFrom (Progress.take ⟨count, bits, 0, false⟩ n).2 t = .ok rest ∧
        bs = (Progress.take ⟨count, bits, 0, false⟩ n).1 ++ rest := by
  have data : digit n ≠ '=' := Base64Url.digit_ne_pad n hn
  rw [decodeFrom, if_neg data, value?_digit n hn]
  simp only [Bool.false_eq_true, if_false]
  cases decodeFrom (Progress.take ⟨count, bits, 0, false⟩ n).2 t with
  | error fault => simp
  | ok rest => simp [eq_comm (a := bs)]

theorem take_snd (count bits n : Nat) : ∃ bits', (Progress.take ⟨count, bits, 0, false⟩ n).2 =
    ⟨count + 1, bits', 0, false⟩ := by
  unfold Progress.take
  simp only
  split <;> exact ⟨_, rfl⟩

/-- The rest of a text is read as the bytes that it writes. -/
theorem decodeFrom_eq_ok_iff :
    decodeFrom ⟨count, bits, 0, false⟩ t = .ok bs ↔ WritesFrom count bits t bs := by
  induction t generalizing count bits bs with
  | nil => rw [decodeFrom_nil, writesFrom_nil]
  | cons c t ih =>
    by_cases pad : c = '='
    · subst pad
      -- Whether padding was seen before is not looked at when padding comes.
      have same : decodeFrom ⟨count, bits, 0, false⟩ (.ofChar '=' :: t) =
          decodeFrom ⟨count, bits, 0, true⟩ (.ofChar '=' :: t) := by
        rw [decodeFrom, decodeFrom, if_pos rfl, if_pos rfl]
      rw [same, decodeFrom_padded (by omega), writesFrom_pad, cons_eq_pads_iff, and_iff_right rfl]
      simp only [Fills, Nat.zero_add]
    · cases hv : value? c with
      | none =>
        rw [decodeFrom, if_neg pad, hv]
        exact iff_of_false nofun (not_writesFrom pad hv)
      | some n =>
        obtain ⟨hn, rfl⟩ := digit_of_value? hv
        obtain ⟨bits', next⟩ := take_snd count bits n
        simp only [decodeFrom_digit hn, writesFrom_digit hn next, next, ih]

end

/-- Where quads begin, the values of whole quads complete three bytes each. -/
theorem completed_eq_gathered (values : List Nat) {count bits : Nat} (hc : count % 4 = 0) :
    completed ⟨count, bits, 0, false⟩ values = gathered values := by
  have second : (count + 1) % 4 = 1 := by omega
  have third : (count + 1 + 1) % 4 = 2 := by omega
  have fourth : (count + 1 + 1 + 1) % 4 = 3 := by omega
  induction values using gathered.induct generalizing count bits with
  | case1 => rfl
  | case2 a => simp [completed, gathered, Progress.take, hc]
  | case3 a b => simp [completed, gathered, Progress.take, hc, second]
  | case4 a b c => simp [completed, gathered, Progress.take, hc, second, third]
  | case5 a b c d rest ih =>
    have next : (count + 1 + 1 + 1 + 1) % 4 = 0 := by omega
    simp [completed, gathered, Progress.take, hc, second, third, fourth,
      ih next (by omega) (by omega) (by omega)]

theorem Writes.isAscii {t : Text} {bs : Bytes} (h : Writes t bs) : t.IsAscii := by
  obtain ⟨values, pads, rfl, small, -⟩ := h
  have digits : ∀ n < 64, (digit n).toNat < 0x80 := by decide
  refine Text.IsAscii.append ?_ ?_
  · intro c hc
    obtain ⟨n, hn, rfl⟩ := List.mem_map.1 hc
    exact digits n (small n hn)
  · intro c hc
    rw [List.eq_of_mem_replicate hc]
    decide

/-- The strict reading takes the texts that write bytes. -/
theorem decode_eq_ok_iff {t : Text} {bs : Bytes} : decode t = .ok bs ↔ Writes t bs := by
  unfold decode
  split
  · next foreign =>
    obtain ⟨c, hc, large⟩ := List.any_eq_true.1 foreign
    refine iff_of_false nofun fun writes => ?_
    have := writes.isAscii c hc
    rw [decide_eq_true_eq] at large
    omega
  split
  · constructor
    · rintro ⟨⟩
      exact ⟨[], 0, rfl, nofun, fun _ => rfl, .inl rfl, rfl⟩
    · rintro ⟨_ | ⟨n, values⟩, pads, h, -, none, -, rfl⟩
      · rfl
      · cases h
  next c t _ =>
  split
  · next pad =>
    subst pad
    refine iff_of_false nofun ?_
    rintro ⟨_ | ⟨n, values⟩, pads, h, small, none, -⟩
    · rw [none rfl] at h
      cases h
    · exact Base64Url.digit_ne_pad n (small n List.mem_cons_self) (List.cons.inj h).1.symm
  · next data =>
    rw [decodeFrom_eq_ok_iff]
    refine exists_congr fun values => exists_congr fun pads => and_congr_right fun h =>
      and_congr_right fun _ => ?_
    rw [Nat.zero_add, completed_eq_gathered values (Nat.zero_mod 4)]
    refine (and_iff_right ?_).symm
    rintro rfl
    cases pads with
    | zero => rfl
    | succ pads => exact absurd (eq_of_pads h) data

theorem decodeFrom_ne_notAscii (p : Progress) (t : Text) : decodeFrom p t ≠ .error .notAscii := by
  induction t generalizing p with
  | nil =>
    rw [decodeFrom]
    split <;> nofun
  | cons c t ih =>
    rw [decodeFrom]
    split
    · simp only
      split
      · split
        · split <;> nofun
        · exact ih _
      · exact ih _
    split
    · nofun
    split
    · nofun
    simp only
    split
    · nofun
    · next fault h =>
      rintro ⟨⟩
      exact ih _ h

/-- A character outside ASCII is what is told of a text that has one. -/
theorem decode_eq_notAscii_iff {t : Text} : decode t = .error .notAscii ↔ ¬t.IsAscii := by
  have foreign : (t.any fun c => 0x80 ≤ c.toNat) = true ↔ ¬t.IsAscii := by
    simp [Text.IsAscii]
  unfold decode
  split
  · next h => exact iff_of_true rfl (foreign.1 h)
  next h =>
  refine iff_of_false ?_ (mt foreign.2 h)
  split
  · nofun
  split
  · nofun
  · exact decodeFrom_ne_notAscii _ _

/-- Where no bits are left over, none are dropped. -/
theorem gathered_of_assemble {values : List Nat} {bs : Bytes}
    (h : Base64Url.assemble values = some bs) : gathered values = bs := by
  induction values using Base64Url.assemble.induct generalizing bs with
  | case1 =>
    cases h
    rfl
  | case2 => cases h
  | case3 a b left =>
    rw [Base64Url.assemble, if_pos left] at h
    exact Option.some.inj h
  | case4 a b left =>
    rw [Base64Url.assemble, if_neg left] at h
    cases h
  | case5 a b c left =>
    rw [Base64Url.assemble, if_pos left] at h
    exact Option.some.inj h
  | case6 a b c left =>
    rw [Base64Url.assemble, if_neg left] at h
    cases h
  | case7 a b c d values ih =>
    rw [Base64Url.assemble, Option.map_eq_some_iff] at h
    obtain ⟨rest, hr, rfl⟩ := h
    rw [gathered, ih hr]
    rfl

theorem writes_encode (bs : Bytes) : Writes (encode bs) bs := by
  have quads := Base64Url.length_sextets bs
  refine ⟨Base64Url.sextets bs, (4 - (Base64Url.sextets bs).length % 4) % 4,
    Base64Url.encode_eq_padded bs, fun n => Base64Url.lt_of_mem_sextets, ?_, ?_,
    (gathered_of_assemble (Base64Url.assemble_sextets bs)).symm⟩
  · intro empty
    rw [empty]
    rfl
  · rw [Fills]
    omega

/-- The bytes are read back from their text. -/
theorem decode_encode (bs : Bytes) : decode (encode bs) = .ok bs :=
  decode_eq_ok_iff.2 (writes_encode bs)

end PullAuth.Base64
