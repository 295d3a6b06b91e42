import Mathlib.Data.List.TakeWhile
import PullAuth.Proofs.Registry.Declared

/-!
Schemes in the tables of registries. No registry has a scheme in front of its scope, its location or
a mirror (`hasScheme_eq_false_of_ofTable`). The slashes at the end of a place are dropped before its
scheme is looked for, so a place with a scheme is refused exactly if something besides slashes is
behind the scheme (`ofTable_of_scheme`); of a bare scheme the name is left, and that is taken for a
place (`ofTable_bareScheme`).
-/
namespace PullAuth.Registry

def schemes : List Text := ["http://", "https://"]

/-- There is nothing but slashes behind a scheme. -/
def IsBareScheme (value : Text) : Prop :=
  ∃ scheme ∈ schemes, ∃ n, value = scheme ++ List.replicate n (.ofChar '/')

/-- The table names a place: its location, its scope or the location of a mirror. -/
inductive Mentions : Toml → Text → Prop
  | location {members : Keyed Toml} {value : Text} :
    Keyed.get? "location" members = some (.string value) → Mentions (.table members) value
  | scope {members : Keyed Toml} {value : Text} :
    Keyed.get? "prefix" members = some (.string value) → Mentions (.table members) value
  | mirror {members mirror : Keyed Toml} {items : List Toml} {value : Text} :
    Keyed.get? "mirror" members = some (.array items) → .table mirror ∈ items →
    Keyed.get? "location" mirror = some (.string value) → Mentions (.table members) value

/-- The places that a registry has. -/
def places (r : Registry) : List Text := r.scope :: r.location :: r.mirrors

/-! ## Slashes behind a scheme -/

theorem hasScheme_iff {t : Text} : hasScheme t = true ↔ ∃ scheme ∈ schemes, scheme <+: t := by
  simp [hasScheme, schemes, Text.startsWith_iff]

theorem withoutSlashes_eq_nil_iff {t : Text} :
    withoutSlashes t = [] ↔ ∃ n, t = List.replicate n (.ofChar '/') := by
  simp only [withoutSlashes, Text.trimEnd, List.reverse_eq_nil_iff, List.dropWhile_eq_nil_iff,
    List.mem_reverse, decide_eq_true_eq]
  constructor
  · intro h
    exact ⟨t.length, List.eq_replicate_iff.2 ⟨rfl, h⟩⟩
  · rintro ⟨n, rfl⟩ c hc
    exact List.eq_of_mem_replicate hc

/-- Slashes are dropped up to the last character that is none. -/
theorem withoutSlashes_append (s t : Text) :
    withoutSlashes (s ++ t) = if withoutSlashes t = [] then withoutSlashes s
      else s ++ withoutSlashes t := by
  simp only [withoutSlashes, Text.trimEnd, List.reverse_append, List.dropWhile_append,
    List.isEmpty_iff, List.reverse_eq_nil_iff]
  split
  · rfl
  · rw [List.reverse_append, List.reverse_reverse]

/-- A scheme without its slashes is none, though it is something. -/
theorem withoutSlashes_scheme :
    ∀ scheme ∈ schemes, withoutSlashes scheme ≠ [] ∧ hasScheme (withoutSlashes scheme) = false := by
  decide

/-- A scheme is lost with the slashes at the end exactly if nothing else is behind it. -/
theorem hasScheme_withoutSlashes_eq_false_iff {value : Text} (h : hasScheme value = true) :
    hasScheme (withoutSlashes value) = false ↔ IsBareScheme value := by
  constructor
  · intro lost
    obtain ⟨scheme, hs, rest, rfl⟩ := hasScheme_iff.1 h
    rw [withoutSlashes_append] at lost
    split at lost
    · next slashes =>
      obtain ⟨n, rfl⟩ := withoutSlashes_eq_nil_iff.1 slashes
      exact ⟨scheme, hs, n, rfl⟩
    · rw [hasScheme_iff.2 ⟨scheme, hs, List.prefix_append _ _⟩] at lost
      cases lost
  · rintro ⟨scheme, hs, n, rfl⟩
    rw [withoutSlashes_append, if_pos (withoutSlashes_eq_nil_iff.2 ⟨n, rfl⟩)]
    exact (withoutSlashes_scheme scheme hs).2

/-! ## Registries -/

theorem not_isWildcard_of_hasScheme {value : Text} (h : hasScheme value = true) :
    isWildcard value = false := by
  obtain ⟨scheme, hs, rest, rfl⟩ := hasScheme_iff.1 h
  simp only [schemes, List.mem_cons, List.not_mem_nil, or_false] at hs
  obtain rfl | rfl := hs <;> rfl

section
variable {table : Toml} {r : Registry} (h : ofTable table = .ok r)
include h

/-- Whatever a table holds, no place of the registry that it defines has a scheme. -/
theorem hasScheme_eq_false_of_ofTable : ∀ place ∈ places r, hasScheme place = false := by
  obtain ⟨members, givenLocation, givenScope, items, -, -, -, -, hlocation, hscope, hmirrors⟩ :=
    ofTable_eq_ok_iff.1 h
  have location : hasScheme r.location = false := by
    obtain ⟨-, trim⟩ | ⟨-, -, absent⟩ := ownLocation_eq_ok_iff.1 hlocation
    · exact (trimmed_eq_ok_iff.1 trim).2.2
    · rw [absent]
      rfl
  have scope : hasScheme r.scope = false := by
    obtain ⟨-, same⟩ | ⟨-, wildcard, -, same⟩ | ⟨-, -, trim⟩ := ownScope_eq_ok_iff.1 hscope
    · rw [same, location]
    · rw [same]
      apply Bool.eq_false_iff.2
      intro scheme
      rw [not_isWildcard_of_hasScheme scheme] at wildcard
      cases wildcard
    · exact (trimmed_eq_ok_iff.1 trim).2.2
  have mirrors : ∀ mirror ∈ r.mirrors, hasScheme mirror = false := by
    intro mirror hm
    obtain ⟨item, -, read⟩ := Results.exists_left_of_mem hmirrors hm
    obtain ⟨_, _, _, _, trim⟩ := readMirror_eq_ok_iff.1 read
    exact (trimmed_eq_ok_iff.1 trim).2.2
  exact List.forall_mem_cons.2 ⟨scope, List.forall_mem_cons.2 ⟨location, mirrors⟩⟩

/-- A place with a scheme that a table names is a place of the registry, without the slashes at its
end. -/
theorem withoutSlashes_mem_places {value : Text} (mentioned : Mentions table value)
    (scheme : hasScheme value = true) : withoutSlashes value ∈ places r := by
  have filled : value ≠ [] := by
    rintro rfl
    cases scheme
  obtain ⟨members, givenLocation, givenScope, items, rfl, hl, hs, hm, hlocation, hscope,
    hmirrors⟩ := ofTable_eq_ok_iff.1 h
  cases mentioned with
  | location hv =>
    rw [hv] at hl
    cases hl
    exact List.mem_cons_of_mem _
      (eq_withoutSlashes_of_ownLocation hlocation ▸ List.mem_cons_self)
  | scope hv =>
    rw [hv] at hs
    cases hs
    obtain ⟨absent, -⟩ | ⟨-, wildcard, -⟩ | ⟨-, -, trim⟩ := ownScope_eq_ok_iff.1 hscope
    · exact absurd absent filled
    · rw [not_isWildcard_of_hasScheme scheme] at wildcard
      cases wildcard
    · exact (trimmed_eq_ok_iff.1 trim).1 ▸ List.mem_cons_self
  | mirror hv item given =>
    rw [hv] at hm
    cases hm
    obtain ⟨kept, mem, read⟩ := Results.exists_right_of_mem hmirrors item
    obtain ⟨_, _, e, given', trim⟩ := readMirror_eq_ok_iff.1 read
    cases e
    cases given.symm.trans given'
    exact List.mem_cons_of_mem _ (List.mem_cons_of_mem _ ((trimmed_eq_ok_iff.1 trim).1 ▸ mem))

end

/-- A bare scheme is taken for a location. -/
theorem ofTable_of_bareScheme {value : Text} (h : hasScheme value = true)
    (bare : IsBareScheme value) : ∃ r, ofTable (.table [("location", .string value)]) = .ok r := by
  have filled : value ≠ [] := by
    rintro rfl
    cases h
  have left : withoutSlashes value ≠ [] := by
    obtain ⟨scheme, hs, n, rfl⟩ := bare
    rw [withoutSlashes_append, if_pos (withoutSlashes_eq_nil_iff.2 ⟨n, rfl⟩)]
    exact (withoutSlashes_scheme scheme hs).1
  have trim : trimmed .location value = .ok (withoutSlashes value) :=
    trimmed_eq_ok_iff.2 ⟨rfl, left, (hasScheme_withoutSlashes_eq_false_iff h).2 bare⟩
  exact ⟨⟨withoutSlashes value, withoutSlashes value, []⟩, ofTable_eq_ok_iff.2
    ⟨_, value, [], [], rfl, rfl, rfl, rfl, ownLocation_eq_ok_iff.2 (.inl ⟨filled, trim⟩),
      ownScope_eq_ok_iff.2 (.inl ⟨rfl, rfl⟩), .nil⟩⟩

/-- Tables that name a place with a scheme are refused exactly if something besides slashes is
behind the scheme. From a table that is taken all the same, the place gets into the registry
without the slashes at its end, and so without the scheme, as has every other place. -/
theorem ofTable_of_scheme {value : Text} (h : hasScheme value = true) :
    ((∀ table, Mentions table value → ∃ fault, ofTable table = .error fault) ↔
      ¬IsBareScheme value) ∧
    ∀ table r, Mentions table value → ofTable table = .ok r →
      withoutSlashes value ∈ places r ∧ ∀ place ∈ places r, hasScheme place = false := by
  have taken (table : Toml) (r : Registry) (mentioned : Mentions table value)
      (ok : ofTable table = .ok r) :
      withoutSlashes value ∈ places r ∧ ∀ place ∈ places r, hasScheme place = false :=
    ⟨withoutSlashes_mem_places ok mentioned h, hasScheme_eq_false_of_ofTable ok⟩
  refine ⟨⟨?_, ?_⟩, taken⟩
  · intro refused bare
    obtain ⟨r, ok⟩ := ofTable_of_bareScheme h bare
    obtain ⟨fault, refusal⟩ :=
      refused (.table [("location", .string value)]) (.location rfl)
    rw [refusal] at ok
    cases ok
  · intro behind table mentioned
    cases result : ofTable table with
    | error fault => exact ⟨fault, rfl⟩
    | ok r =>
      obtain ⟨mem, plain⟩ := taken table r mentioned result
      exact absurd ((hasScheme_withoutSlashes_eq_false_iff h).1 (plain _ mem)) behind

theorem ofTable_of_scheme_mirror :
    hasScheme "https://quay.io/" = true ∧ ∃ fault, ofTable (.table
      [("location", .string "docker.io"),
        ("mirror", .array [.table [("location", .string "quay.io")],
          .table [("location", .string "https://quay.io/")]])]) = .error fault := by
  have behind : ¬IsBareScheme "https://quay.io/" := by
    intro bare
    exact absurd ((hasScheme_withoutSlashes_eq_false_iff (by decide)).2 bare) (by decide)
  have second : Toml.table [("location", .string "https://quay.io/")] ∈
      [.table [("location", .string "quay.io")],
        .table [("location", .string "https://quay.io/")]] :=
    List.mem_cons_of_mem _ List.mem_cons_self
  exact ⟨by decide, (ofTable_of_scheme (by decide)).1.2 behind _ (.mirror rfl second rfl)⟩

theorem ofTable_bareScheme :
    hasScheme "http://" = true ∧
      Mentions (.table [("location", .string "http://")]) "http://" ∧
      ofTable (.table [("location", .string "http://")]) =
        .ok { scope := "http:", location := "http:", mirrors := [] } :=
  ⟨by decide, .location rfl, by decide⟩

end PullAuth.Registry
