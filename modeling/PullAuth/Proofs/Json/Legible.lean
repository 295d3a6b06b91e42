import PullAuth.Proofs.Json.Numbers
import PullAuth.Proofs.Json.Strings
import PullAuth.Proofs.Keyed

/-!
The values that JSON texts have. They are the legible ones (`Legible`): whole numbers have few
enough digits, in strings no two halves of a surrogate pair stand next to each other, and the keys
of an object differ. What is read from a text without surrogates is legible (`legible_of_read?`).
-/
namespace PullAuth

namespace Json

/-- A value that some JSON text has. -/
inductive Legible : Json → Prop
  | null : Legible null
  | bool (value : Bool) : Legible (bool value)
  | int {value : Int} :
    (Nat.toDigits 10 value.natAbs).length ≤ wholeDigitLimit → Legible (int value)
  | double (value : Double) : Legible (double value)
  | string {value : Text} : value.IsJoined → Legible (string value)
  | array {items : List Json} : (∀ item ∈ items, Legible item) → Legible (array items)
  | object {members : List (Text × Json)} : (members.map Prod.fst).Nodup →
    (∀ m ∈ members, m.1.IsJoined) → (∀ m ∈ members, Legible m.2) → Legible (object members)

theorem Legible.nodup {members : List (Text × Json)} (h : Legible (Json.object members)) :
    (members.map Prod.fst).Nodup := by
  cases h with
  | object nodup _ _ => exact nodup

theorem Legible.get? {members : List (Text × Json)} (h : Legible (Json.object members)) {key : Text}
    {value : Json} (hv : Keyed.get? key members = some value) : Legible value := by
  cases h with
  | object nodup _ values => exact values (key, value) ((Keyed.get?_eq_some_iff nodup).1 hv)

theorem skipSpace_suffix (t : Text) : skipSpace t <:+ t := List.dropWhile_suffix _

theorem append_of_readWord {t rest : Text} {v : Json} (h : readWord t = some (v, rest)) :
    ∃ word, (word, v) ∈ words ∧ t = word ++ rest := by
  obtain ⟨⟨word, value⟩, known, found⟩ := List.exists_of_findSome?_eq_some h
  obtain ⟨behind, hb, e⟩ := Option.map_eq_some_iff.1 found
  cases e
  exact ⟨word, known, Text.after?_eq_some_iff.1 hb⟩

theorem legible_of_mem_words {word : Text} {v : Json} (h : (word, v) ∈ words) : Legible v := by
  simp only [words, List.mem_cons, Prod.mk.injEq, List.not_mem_nil, or_false] at h
  rcases h with ⟨-, rfl⟩ | ⟨-, rfl⟩ | ⟨-, rfl⟩ | ⟨-, rfl⟩ | ⟨-, rfl⟩ | ⟨-, rfl⟩
  · exact .null
  · exact .bool _
  · exact .bool _
  · exact .double _
  · exact .double _
  · exact .double _

theorem SpellsNumber.legible {t : Text} {v : Json} (h : SpellsNumber t v) : Legible v := by
  obtain ⟨n, rfl, short⟩ | ⟨d, rfl⟩ := h.kind
  · exact .int short
  · exact .double d

/-- What a reading takes from a text without surrogates is legible, and the end of the text is
left. -/
structure ReadsLegible (fuel : Nat) : Prop where
  value : ∀ {t rest : Text} {v : Json}, t.IsScalar → readValue fuel t = some (v, rest) →
    Legible v ∧ rest <:+ t
  items : ∀ {t rest : Text} {items : List Json}, t.IsScalar →
    readItems fuel t = some (items, rest) → (∀ item ∈ items, Legible item) ∧ rest <:+ t
  members : ∀ {t rest : Text} {members : List (Text × Json)}, t.IsScalar →
    readMembers fuel t = some (members, rest) →
    (∀ m ∈ members, m.1.IsJoined ∧ Legible m.2) ∧ rest <:+ t

theorem legible_ofPairs {members : List (Text × Json)}
    (h : ∀ m ∈ members, m.1.IsJoined ∧ Legible m.2) :
    Legible (object (Keyed.ofPairs members)) :=
  .object (Keyed.nodup_keys_ofPairs members) (fun m hm => (h m (Keyed.mem_ofPairs hm)).1)
    fun m hm => (h m (Keyed.mem_ofPairs hm)).2

section Step

variable {fuel : Nat} (ih : ReadsLegible fuel) {t rest : Text} (ht : t.IsScalar)

include ih ht

theorem legible_of_readValue_succ {v : Json} (h : readValue (fuel + 1) t = some (v, rest)) :
    Legible v ∧ rest <:+ t := by
  rw [readValue.eq_def] at h
  cases t with
  | nil => cases h
  | cons c t =>
    have tail := List.suffix_cons c t
    have space := (skipSpace_suffix t).trans tail
    simp only at h
    split at h
    · obtain ⟨⟨w, behind⟩, hw, e⟩ := Option.map_eq_some_iff.1 h
      cases e
      obtain ⟨joined, suffix, -⟩ := isJoined_of_readString (ht.of_suffix tail) hw
      exact ⟨.string joined, suffix.trans tail⟩
    split at h
    · split at h
      · cases h
      next d behind hd =>
      rw [hd] at space
      split at h
      · cases h
        exact ⟨.array nofun, (List.suffix_cons d rest).trans space⟩
      · obtain ⟨⟨items, last⟩, hi, e⟩ := Option.map_eq_some_iff.1 h
        cases e
        obtain ⟨legible, suffix⟩ := ih.items (ht.of_suffix space) hi
        exact ⟨.array legible, suffix.trans space⟩
    split at h
    · split at h
      · cases h
      next d behind hd =>
      rw [hd] at space
      split at h
      · cases h
        exact ⟨.object List.nodup_nil nofun nofun, (List.suffix_cons d rest).trans space⟩
      · obtain ⟨⟨members, last⟩, hm, e⟩ := Option.map_eq_some_iff.1 h
        cases e
        obtain ⟨legible, suffix⟩ := ih.members (ht.of_suffix space) hm
        exact ⟨legible_ofPairs legible, suffix.trans space⟩
    split at h
    · next found hf =>
      cases h
      obtain ⟨word, known, e⟩ := append_of_readWord hf
      exact ⟨legible_of_mem_words known, e ▸ List.suffix_append word rest⟩
    · obtain ⟨s, e, number⟩ := spells_of_readNumber h
      exact ⟨number.legible, e ▸ List.suffix_append s rest⟩

theorem legible_of_readItems_succ {items : List Json}
    (h : readItems (fuel + 1) t = some (items, rest)) :
    (∀ item ∈ items, Legible item) ∧ rest <:+ t := by
  rw [readItems.eq_def] at h
  simp only at h
  split at h
  · cases h
  next item behind hv =>
  obtain ⟨legible, suffix⟩ := ih.value ht hv
  split at h
  · cases h
  next d last hd =>
  have after : last <:+ t := (List.suffix_cons d last).trans
    ((hd ▸ skipSpace_suffix behind).trans suffix)
  split at h
  · cases h
    exact ⟨List.forall_mem_singleton.2 legible, after⟩
  split at h
  · obtain ⟨⟨others, final⟩, ho, e⟩ := Option.map_eq_some_iff.1 h
    cases e
    have space := (skipSpace_suffix last).trans after
    obtain ⟨legible', suffix'⟩ := ih.items (ht.of_suffix space) ho
    exact ⟨List.forall_mem_cons.2 ⟨legible, legible'⟩, suffix'.trans space⟩
  · cases h

theorem legible_of_readMembers_succ {members : List (Text × Json)}
    (h : readMembers (fuel + 1) t = some (members, rest)) :
    (∀ m ∈ members, m.1.IsJoined ∧ Legible m.2) ∧ rest <:+ t := by
  rw [readMembers.eq_def] at h
  cases t with
  | nil => cases h
  | cons q t =>
    have tail := List.suffix_cons q t
    simp only at h
    split at h
    · cases h
    split at h
    · cases h
    next key behind hk =>
    obtain ⟨joined, key_suffix, -⟩ := isJoined_of_readString (ht.of_suffix tail) hk
    split at h
    · cases h
    next d colon hd =>
    have after_key : colon <:+ q :: t := (List.suffix_cons d colon).trans
      ((hd ▸ skipSpace_suffix behind).trans (key_suffix.trans tail))
    split at h
    · cases h
    split at h
    · cases h
    next value last hv =>
    have space := (skipSpace_suffix colon).trans after_key
    obtain ⟨legible, suffix⟩ := ih.value (ht.of_suffix space) hv
    split at h
    · cases h
    next d final hd =>
    have after : final <:+ q :: t := (List.suffix_cons d final).trans
      ((hd ▸ skipSpace_suffix last).trans (suffix.trans space))
    split at h
    · cases h
      exact ⟨List.forall_mem_singleton.2 ⟨joined, legible⟩, after⟩
    split at h
    · obtain ⟨⟨others, final⟩, ho, e⟩ := Option.map_eq_some_iff.1 h
      cases e
      have space := (skipSpace_suffix _).trans after
      obtain ⟨legible', suffix'⟩ := ih.members (ht.of_suffix space) ho
      exact ⟨List.forall_mem_cons.2 ⟨⟨joined, legible⟩, legible'⟩, suffix'.trans space⟩
    · cases h

end Step

theorem readsLegible (fuel : Nat) : ReadsLegible fuel := by
  induction fuel with
  | zero =>
    refine ⟨fun _ h => ?_, fun _ h => ?_, fun _ h => ?_⟩
    · rw [readValue.eq_def] at h
      cases h
    · rw [readItems.eq_def] at h
      cases h
    · rw [readMembers.eq_def] at h
      cases h
  | succ fuel ih =>
    exact ⟨fun ht => legible_of_readValue_succ ih ht, fun ht => legible_of_readItems_succ ih ht,
      fun ht => legible_of_readMembers_succ ih ht⟩

/-- The value of a JSON text without surrogates is legible. -/
theorem legible_of_read? {t : Text} {v : Json} (ht : t.IsScalar) (h : read? t = some v) :
    Legible v := by
  obtain ⟨⟨found, rest⟩, hf, h⟩ := Option.bind_eq_some_iff.1 h
  simp only at h
  split at h
  · cases h
    exact ((readsLegible _).value (ht.of_suffix (skipSpace_suffix t)) hf).1
  · cases h

end Json

end PullAuth
