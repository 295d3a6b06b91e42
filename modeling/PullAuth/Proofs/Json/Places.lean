import PullAuth.Proofs.Json.Grammar

/-!
Places in JSON values. Keys lead from a value through the members of objects to the value at a
place (`at?`). Where the keys in every object are distinct, as they are in all values that texts
denote (`hasDistinctKeys_of_denotes`), a member is at the place that its key names.
-/
namespace PullAuth.Json

/-- The value to which keys lead. -/
def at? : List Text → Json → Option Json
  | [], value => some value
  | key :: keys, value => (value.member? key).bind (at? keys)

/-- The members of every object to which keys lead have different keys. -/
def HasDistinctKeys (value : Json) : Prop :=
  ∀ keys members, value.at? keys = some (.object members) → (members.map Prod.fst).Nodup

theorem at?_cons_eq_some_iff {key : Text} {keys : List Text} {value place : Json} :
    value.at? (key :: keys) = some place ↔
      ∃ inner, value.member? key = some inner ∧ inner.at? keys = some place :=
  Option.bind_eq_some_iff

theorem HasDistinctKeys.of_member? {value inner : Json} (h : value.HasDistinctKeys) {key : Text}
    (hi : value.member? key = some inner) : inner.HasDistinctKeys :=
  fun keys members hm => h (key :: keys) members (at?_cons_eq_some_iff.2 ⟨inner, hi, hm⟩)

theorem hasDistinctKeys_of_not_object {value : Json} (h : value.isObject = false) :
    value.HasDistinctKeys := by
  intro keys members found
  cases keys with
  | nil =>
    cases found
    cases h
  | cons key keys =>
    obtain ⟨inner, there, -⟩ := at?_cons_eq_some_iff.1 found
    cases value with
    | object _ => cases h
    | _ => cases there

theorem hasDistinctKeys_object {members : Keyed Json} (distinct : (members.map Prod.fst).Nodup)
    (h : ∀ m ∈ members, m.2.HasDistinctKeys) : (object members).HasDistinctKeys := by
  intro keys inner found
  cases keys with
  | nil =>
    cases found
    exact distinct
  | cons key keys =>
    obtain ⟨value, there, found⟩ := at?_cons_eq_some_iff.1 found
    exact h _ (Keyed.mem_of_get? there) keys inner found

/-- The objects in what a phrase stands for have different keys. -/
def Phrase.HasDistinctKeys : Phrase → Prop
  | .value v => v.HasDistinctKeys
  | .items _ => True
  | .members list => ∀ m ∈ list, m.2.HasDistinctKeys

theorem Phrase.Begins.hasDistinctKeys {p : Phrase} {t rest : Text} (h : p.Begins t rest) :
    p.HasDistinctKeys := by
  induction h with
  | word known =>
    refine hasDistinctKeys_of_not_object ?_
    simp only [words, List.mem_cons, Prod.mk.injEq, List.not_mem_nil, or_false] at known
    rcases known with ⟨-, rfl⟩ | ⟨-, rfl⟩ | ⟨-, rfl⟩ | ⟨-, rfl⟩ | ⟨-, rfl⟩ | ⟨-, rfl⟩ <;> rfl
  | number spelled =>
    refine hasDistinctKeys_of_not_object ?_
    obtain ⟨n, rfl, -⟩ | ⟨d, rfl⟩ := spelled.kind <;> rfl
  | string _ => exact hasDistinctKeys_of_not_object rfl
  | noItems _ => exact hasDistinctKeys_of_not_object rfl
  | array _ _ _ => exact hasDistinctKeys_of_not_object rfl
  | noMembers _ => exact hasDistinctKeys_object List.nodup_nil fun _ h => absurd h List.not_mem_nil
  | object _ _ ih =>
    exact hasDistinctKeys_object (Keyed.nodup_keys_ofPairs _) fun m hm =>
      ih m (Keyed.mem_ofPairs hm)
  | lastItem _ _ _ => trivial
  | item _ _ _ _ _ _ => trivial
  | lastMember _ _ _ _ _ value => exact List.forall_mem_singleton.2 value
  | member _ _ _ _ _ _ _ value others => exact List.forall_mem_cons.2 ⟨value, others⟩

/-- The keys in a value that a text denotes are distinct. -/
theorem hasDistinctKeys_of_denotes {t : Text} {value : Json} (h : Denotes t value) :
    value.HasDistinctKeys := by
  obtain ⟨_, _, _, -, -, -, begins⟩ := h
  exact begins.hasDistinctKeys

end PullAuth.Json
