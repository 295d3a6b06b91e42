import PullAuth.Proofs.Registry.Definitions

/-!
What a table declares. The scope and the mirrors are written in the table, up to slashes at their
ends, and the registry that the table defines has just these (`eq_declared_of_defines`).
-/
namespace PullAuth.Registry

/-- The text under a key of a table; empty if there is none. -/
def textUnder (key : Text) : Toml → Text
  | .table members =>
    match Keyed.get? key members with
    | some (.string value) => value
    | _ => []
  | _ => []

def itemsUnder (key : Text) : Toml → List Toml
  | .table members =>
    match Keyed.get? key members with
    | some (.array items) => items
    | _ => []
  | _ => []

def withoutSlashes (value : Text) : Text := Text.trimEnd (· = '/') value

/-- The scope of the registry that a table describes, which is its location if none is given. -/
def declaredScope (table : Toml) : Text :=
  if (textUnder "prefix" table).isEmpty then withoutSlashes (textUnder "location" table)
  else if isWildcard (textUnder "prefix" table) then textUnder "prefix" table
  else withoutSlashes (textUnder "prefix" table)

/-- The mirrors that a table lists. -/
def declaredMirrors (table : Toml) : List Text :=
  (itemsUnder "mirror" table).map fun item => withoutSlashes (textUnder "location" item)

/-- A location is taken without the slashes at its end, if something is left and that has no
scheme. -/
theorem trimmed_eq_ok_iff {place : Place} {value kept : Text} :
    trimmed place value = .ok kept ↔
      kept = withoutSlashes value ∧ kept ≠ [] ∧ hasScheme kept = false := by
  simp only [trimmed]
  rw [show Text.trimEnd (· = '/') value = withoutSlashes value from rfl]
  constructor
  · intro h
    split at h
    · cases h
    next filled =>
    split at h
    · cases h
    next plain =>
    cases h
    exact ⟨rfl, by simpa using filled, by simpa using plain⟩
  · rintro ⟨rfl, filled, plain⟩
    rw [if_neg (by simpa using filled), if_neg (by simpa using plain)]

/-- The location is missing only beside a wildcard scope. -/
theorem ownLocation_eq_ok_iff {scope given location : Text} :
    ownLocation scope given = .ok location ↔
      (given ≠ [] ∧ trimmed .location given = .ok location) ∨
        (given = [] ∧ isWildcard scope = true ∧ location = []) := by
  unfold ownLocation
  cases given with
  | nil => cases isWildcard scope <;> simp [eq_comm]
  | cons c given => simp

/-- The scope is the location, a wildcard without a location, or a place of its own. -/
theorem ownScope_eq_ok_iff {given location scope : Text} :
    ownScope given location = .ok scope ↔
      (given = [] ∧ scope = location) ∨
        (given ≠ [] ∧ isWildcard given = true ∧ location = [] ∧ scope = given) ∨
        (given ≠ [] ∧ isWildcard given = false ∧ trimmed .scope given = .ok scope) := by
  unfold ownScope
  cases given with
  | nil => simpa using eq_comm
  | cons c given =>
    cases isWildcard (c :: given) with
    | true => cases location <;> simp [eq_comm]
    | false => simp

theorem readMirror_eq_ok_iff {scope kept : Text} {item : Toml} :
    readMirror scope item = .ok kept ↔ ∃ members value, item = .table members ∧
      Keyed.get? "location" members = some (.string value) ∧ trimmed .mirror value = .ok kept := by
  constructor
  · intro h
    unfold readMirror at h
    split at h
    · next members =>
      split at h
      · next value hv =>
        unfold readLocation at h
        split at h
        · next value => exact ⟨members, value, rfl, hv, h⟩
        · cases h
      · cases h
    · cases h
  · rintro ⟨members, value, rfl, hv, h⟩
    simp only [readMirror, hv, readLocation, h]

theorem eq_withoutSlashes_of_ownLocation {scope given location : Text}
    (h : ownLocation scope given = .ok location) : location = withoutSlashes given := by
  obtain ⟨-, trim⟩ | ⟨rfl, -, rfl⟩ := ownLocation_eq_ok_iff.1 h
  · exact (trimmed_eq_ok_iff.1 trim).1
  · rfl

theorem eq_of_ownScope {given location scope : Text} (h : ownScope given location = .ok scope) :
    scope = if given.isEmpty then location else
      if isWildcard given then given else withoutSlashes given := by
  obtain ⟨rfl, rfl⟩ | ⟨given, wildcard, -, rfl⟩ | ⟨given, plain, trim⟩ := ownScope_eq_ok_iff.1 h
  · rfl
  · rw [if_neg (by simpa using given), if_pos wildcard]
  · rw [if_neg (by simpa using given), if_neg (by simp [plain])]
    exact (trimmed_eq_ok_iff.1 trim).1

theorem textUnder_of_getD {key value : Text} {members : Keyed Toml}
    (h : (Keyed.get? key members).getD (.string []) = .string value) :
    textUnder key (.table members) = value := by
  rw [textUnder]
  cases hk : Keyed.get? key members with
  | none =>
    rw [hk] at h
    cases h
    rfl
  | some found =>
    rw [hk, Option.getD_some] at h
    rw [h]

theorem itemsUnder_of_getD {key : Text} {items : List Toml} {members : Keyed Toml}
    (h : (Keyed.get? key members).getD (.array []) = .array items) :
    itemsUnder key (.table members) = items := by
  rw [itemsUnder]
  cases hk : Keyed.get? key members with
  | none =>
    rw [hk] at h
    cases h
    rfl
  | some found =>
    rw [hk, Option.getD_some] at h
    rw [h]

theorem readMirror_eq_ok {scope kept : Text} {item : Toml} (h : readMirror scope item = .ok kept) :
    withoutSlashes (textUnder "location" item) = kept := by
  obtain ⟨members, value, rfl, hv, trim⟩ := readMirror_eq_ok_iff.1 h
  simp only [textUnder, hv, (trimmed_eq_ok_iff.1 trim).1]

/-- A table defines a registry if its location, its scope and each of its mirrors are in order. -/
theorem ofTable_eq_ok_iff {table : Toml} {r : Registry} :
    ofTable table = .ok r ↔ ∃ members givenLocation givenScope items, table = .table members ∧
      (Keyed.get? "location" members).getD (.string []) = .string givenLocation ∧
      (Keyed.get? "prefix" members).getD (.string []) = .string givenScope ∧
      (Keyed.get? "mirror" members).getD (.array []) = .array items ∧
      ownLocation givenScope givenLocation = .ok r.location ∧
      ownScope givenScope r.location = .ok r.scope ∧
      List.Forall₂ (fun item mirror => readMirror r.scope item = .ok mirror) items r.mirrors := by
  constructor
  · intro h
    unfold ofTable at h
    split at h
    · next members =>
      split at h
      · next givenLocation givenScope hl hs =>
        obtain ⟨location, hlocation, h⟩ := Results.bind_eq_ok_iff.1 h
        obtain ⟨scope, hscope, h⟩ := Results.bind_eq_ok_iff.1 h
        split at h
        · next items hm =>
          obtain ⟨mirrors, hmirrors, h⟩ := Results.bind_eq_ok_iff.1 h
          cases h
          exact ⟨members, givenLocation, givenScope, items, rfl, hl, hs, hm, hlocation, hscope,
            Results.mapM_eq_ok_iff.1 hmirrors⟩
        · cases h
      · cases h
    · cases h
  · rintro ⟨members, givenLocation, givenScope, items, rfl, hl, hs, hm, hlocation, hscope,
      hmirrors⟩
    simp only [ofTable, hl, hs]
    refine Results.bind_eq_ok_iff.2 ⟨_, hlocation, Results.bind_eq_ok_iff.2 ⟨_, hscope, ?_⟩⟩
    simp only [hm]
    exact Results.bind_eq_ok_iff.2 ⟨_, Results.mapM_eq_ok_iff.2 hmirrors, rfl⟩

/-- A registry has the scope and the mirrors that its table declares. -/
theorem eq_declared_of_defines {table : Toml} {r : Registry} (h : Defines table r) :
    r.scope = declaredScope table ∧ r.mirrors = declaredMirrors table := by
  obtain ⟨members, givenLocation, givenScope, items, rfl, hl, hs, hm, hlocation, hscope,
    hmirrors⟩ := ofTable_eq_ok_iff.1 h
  have listed := hmirrors.imp fun _ _ => readMirror_eq_ok
  rw [declaredScope, declaredMirrors, textUnder_of_getD hl, textUnder_of_getD hs,
    itemsUnder_of_getD hm, ← eq_withoutSlashes_of_ownLocation hlocation]
  exact ⟨eq_of_ownScope hscope,
    (List.forall₂_eq_eq_eq ▸ List.forall₂_map_left_iff.2 listed : _ = _).symm⟩

end PullAuth.Registry
