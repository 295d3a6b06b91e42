import Mathlib.Data.List.DropRight
import PullAuth.Proofs.Registry.LongestScope
import PullAuth.Proofs.Registry.Schemes

/-!
The form in which registries come out of a configuration. A place is kept without the slashes at its
end (`Tidy`), and the places of a registry are those that the last table of its scope gives, in
their order (`IsNormal`, `load_normal_form`). A registry without a location has a wildcard scope.
The converse fails where a location that begins like a wildcard stands for the scope as well, and
only there (`isWildcard_scope_iff`). Every other registry is read back from the table of its own
places (`ofTable_toTable_iff`).
-/
namespace PullAuth.Registry

/-! ## Places -/

/-- A place is the given text without the slashes at its end; something is left, and no scheme
stands in front of it. -/
structure Tidy (given kept : Text) : Prop where
  filled : kept ≠ []
  whole : ∃ n, given = kept ++ List.replicate n (.ofChar '/')
  noSlash : kept.getLast? ≠ some (.ofChar '/')
  noScheme : ∀ scheme ∈ schemes, ¬scheme <+: kept

theorem withoutSlashes_of_noSlash {t : Text} (h : t.getLast? ≠ some (.ofChar '/')) :
    withoutSlashes t = t := by
  refine List.rdropWhile_eq_self_iff.2 fun present slash => h ?_
  rw [List.getLast?_eq_some_getLast present, of_decide_eq_true slash]

theorem eq_withoutSlashes_iff {given kept : Text} :
    kept = withoutSlashes given ↔
      (∃ n, given = kept ++ List.replicate n (.ofChar '/')) ∧
        kept.getLast? ≠ some (.ofChar '/') := by
  constructor
  · rintro rfl
    obtain ⟨cut, split, slashes⟩ := Text.trimEnd_append (· = '/') given
    refine ⟨⟨cut.length, ?_⟩, fun last => ?_⟩
    · have all : cut = List.replicate cut.length (.ofChar '/') :=
        List.eq_replicate_iff.2 ⟨rfl, fun c hc => of_decide_eq_true (slashes c hc)⟩
      rw [← all]
      exact split
    · exact absurd rfl (of_decide_eq_false (Text.getLast?_trimEnd _ _ last))
  · rintro ⟨⟨n, rfl⟩, noSlash⟩
    rw [withoutSlashes_append, if_pos (withoutSlashes_eq_nil_iff.2 ⟨n, rfl⟩),
      withoutSlashes_of_noSlash noSlash]

theorem trimmed_iff_tidy {place : Place} {given kept : Text} :
    trimmed place given = .ok kept ↔ Tidy given kept := by
  have schemeless : hasScheme kept = false ↔ ∀ scheme ∈ schemes, ¬scheme <+: kept := by
    rw [← Bool.not_eq_true, hasScheme_iff]
    simp
  rw [trimmed_eq_ok_iff, eq_withoutSlashes_iff, schemeless]
  constructor
  · rintro ⟨⟨whole, noSlash⟩, filled, noScheme⟩
    exact ⟨filled, whole, noSlash, noScheme⟩
  · rintro ⟨filled, whole, noSlash, noScheme⟩
    exact ⟨⟨whole, noSlash⟩, filled, noScheme⟩

namespace Tidy

variable {given kept : Text} (h : Tidy given kept)
include h

/-- A place that was kept is kept as it is when it is given again. -/
theorem again : Tidy kept kept :=
  ⟨h.filled, ⟨0, (List.append_nil kept).symm⟩, h.noSlash, h.noScheme⟩

theorem given_ne_nil : given ≠ [] := by
  obtain ⟨n, rfl⟩ := h.whole
  exact List.append_ne_nil_of_left_ne_nil h.filled _

/-- Dropping slashes makes no wildcard and takes none away. -/
theorem isWildcard_eq : isWildcard kept = isWildcard given := by
  rw [Bool.eq_iff_iff, isWildcard, isWildcard, Text.startsWith_iff, Text.startsWith_iff]
  constructor
  · obtain ⟨n, rfl⟩ := h.whole
    exact fun wildcard => wildcard.trans (List.prefix_append _ _)
  · rintro ⟨rest, rfl⟩
    rw [eq_withoutSlashes_iff.2 ⟨h.whole, h.noSlash⟩, withoutSlashes_append]
    split
    · exact ⟨[], rfl⟩
    · exact List.prefix_append _ _

end Tidy

theorem ne_nil_of_isWildcard {scope : Text} (h : isWildcard scope = true) : scope ≠ [] := by
  rintro rfl
  cases h

/-! ## Registries -/

/-- The scope and the location of a registry, by what its table gives for them. -/
inductive HasForm (table : Toml) (r : Registry) : Prop
  /-- The location stands for the scope as well. -/
  | located : textUnder "prefix" table = [] → Tidy (textUnder "location" table) r.location →
    r.scope = r.location → HasForm table r
  /-- A wildcard is taken as it is given and goes without a location. -/
  | wildcard : isWildcard (textUnder "prefix" table) = true → r.scope = textUnder "prefix" table →
    textUnder "location" table = [] → r.location = [] → HasForm table r
  /-- Both are given. -/
  | both : isWildcard (textUnder "prefix" table) = false →
    Tidy (textUnder "prefix" table) r.scope → Tidy (textUnder "location" table) r.location →
    HasForm table r

/-- A table gives the location of a mirror. -/
def GivesMirror (item : Toml) (mirror : Text) : Prop :=
  ∃ members given, item = .table members ∧
    Keyed.get? "location" members = some (.string given) ∧ Tidy given mirror

section
variable {table : Toml} {r : Registry} (h : ofTable table = .ok r)
include h

theorem hasForm_of_ofTable : HasForm table r := by
  obtain ⟨members, givenLocation, givenScope, items, rfl, hl, hs, -, hlocation, hscope, -⟩ :=
    ofTable_eq_ok_iff.1 h
  obtain rfl := textUnder_of_getD hl
  obtain rfl := textUnder_of_getD hs
  have location := (ownLocation_eq_ok_iff.1 hlocation).imp_left fun own => trimmed_iff_tidy.1 own.2
  obtain ⟨empty, same⟩ | ⟨-, wildcard, absent, same⟩ | ⟨-, plain, trim⟩ :=
    ownScope_eq_ok_iff.1 hscope
  · have tidy := location.resolve_right fun away => ne_nil_of_isWildcard away.2.1 empty
    exact .located empty tidy same
  · have away := location.resolve_left fun tidy => tidy.filled absent
    exact .wildcard wildcard same away.1 absent
  · have tidy := location.resolve_right fun away => Bool.eq_false_iff.1 plain away.2.1
    exact .both plain (trimmed_iff_tidy.1 trim) tidy

theorem givesMirrors_of_ofTable :
    List.Forall₂ GivesMirror (itemsUnder "mirror" table) r.mirrors := by
  obtain ⟨members, -, -, items, rfl, -, -, hm, -, -, hmirrors⟩ := ofTable_eq_ok_iff.1 h
  rw [itemsUnder_of_getD hm]
  refine hmirrors.imp fun item mirror read => ?_
  obtain ⟨found, given, e, hv, trim⟩ := readMirror_eq_ok_iff.1 read
  exact ⟨found, given, e, hv, trimmed_iff_tidy.1 trim⟩

/-- A registry has a wildcard scope exactly if it has no location, unless its location stands for
the scope as well and begins like a wildcard. Without a location the scope is always a wildcard. -/
theorem isWildcard_scope_iff :
    ((isWildcard r.scope = true ↔ r.location = []) ↔
      ¬(textUnder "prefix" table = [] ∧ isWildcard (textUnder "location" table) = true)) ∧
    (r.location = [] → isWildcard r.scope = true) := by
  cases hasForm_of_ofTable h with
  | located empty location same =>
    have scope : isWildcard r.scope = isWildcard (textUnder "location" table) := by
      rw [same, location.isWildcard_eq]
    simp [scope, empty, location.filled]
  | wildcard starred same away absent =>
    have scope : isWildcard r.scope = true := by rw [same, starred]
    simp [scope, absent, ne_nil_of_isWildcard starred]
  | both plain own location =>
    have scope : isWildcard r.scope = false := by rw [own.isWildcard_eq, plain]
    simp [scope, location.filled, own.given_ne_nil]

end

theorem isWildcard_scope_iff_domain :
    ofTable (.table [("prefix", .string "*.example.com")]) = .ok ⟨"*.example.com", [], []⟩ ∧
      (isWildcard "*.example.com" = true ↔ ([] : Text) = []) := by
  have read : ofTable (.table [("prefix", .string "*.example.com")]) =
      .ok ⟨"*.example.com", [], []⟩ := by decide
  exact ⟨read, (isWildcard_scope_iff read).1.2 (by decide)⟩

/-- A location that begins like a wildcard is taken for the scope too, though a table that gives it
for both is refused. -/
theorem ofTable_wildcardLocation :
    ofTable (.table [("location", .string "*.example.com")]) =
        .ok ⟨"*.example.com", "*.example.com", []⟩ ∧
      ¬(isWildcard "*.example.com" = true ↔ ("*.example.com" : Text) = []) ∧
      ofTable (.table [("prefix", .string "*.example.com"),
        ("location", .string "*.example.com")]) =
          .error (.wildcardWithLocation "*.example.com") := by
  decide

/-! ## Normal form -/

/-- The text that a table gives for the scope of its registry: the location if there is no other. -/
def givenScope (table : Toml) : Text :=
  if (textUnder "prefix" table).isEmpty then textUnder "location" table
  else textUnder "prefix" table

/-- The places of a registry are those that its table gives, without the slashes at their ends. -/
structure IsNormal (table : Toml) (r : Registry) : Prop where
  filled : r.scope ≠ []
  scope : isWildcard r.scope = false → Tidy (givenScope table) r.scope
  location : r.location ≠ [] → Tidy (textUnder "location" table) r.location
  noScope : textUnder "prefix" table = [] → r.scope = r.location
  mirrors : List.Forall₂ GivesMirror (itemsUnder "mirror" table) r.mirrors

def mirrorTable (mirror : Text) : Toml := .table [("location", .string mirror)]

/-- The table of the places of a registry. -/
def toTable (r : Registry) : Toml :=
  let mirrors := Toml.array (r.mirrors.map mirrorTable)
  if r.location = [] then .table [("prefix", .string r.scope), ("mirror", mirrors)]
  else .table [("prefix", .string r.scope), ("location", .string r.location), ("mirror", mirrors)]

section
variable {table : Toml} {r : Registry} (h : ofTable table = .ok r)
include h

theorem isNormal_of_ofTable : IsNormal table r := by
  have mirrors := givesMirrors_of_ofTable h
  cases hasForm_of_ofTable h with
  | located empty location same =>
    refine ⟨same ▸ location.filled, fun _ => ?_, fun _ => location, fun _ => same, mirrors⟩
    rw [givenScope, empty, same]
    exact location
  | wildcard starred same away absent =>
    have present := ne_nil_of_isWildcard starred
    refine ⟨same ▸ present, fun plain => ?_, fun found => absurd absent found,
      fun empty => absurd empty present, mirrors⟩
    rw [same, starred] at plain
    cases plain
  | both plain own location =>
    have present := own.given_ne_nil
    refine ⟨own.filled, fun _ => ?_, fun _ => location, fun empty => absurd empty present, mirrors⟩
    rw [givenScope, if_neg (by simpa using present)]
    exact own

theorem readMirrors_again : List.Forall₂ (fun item mirror => readMirror r.scope item = .ok mirror)
    (r.mirrors.map mirrorTable) r.mirrors := by
  rw [List.forall₂_map_left_iff, List.forall₂_same]
  intro mirror mem
  obtain ⟨item, -, members, given, -, -, tidy⟩ :=
    Results.exists_left_of_mem (givesMirrors_of_ofTable h) mem
  exact readMirror_eq_ok_iff.2 ⟨_, mirror, rfl, rfl, trimmed_iff_tidy.2 tidy.again⟩

/-- A registry is read back from the table of its places, unless it has both a wildcard scope and a
location. -/
theorem ofTable_toTable_iff :
    ofTable r.toTable = .ok r ↔ ¬(isWildcard r.scope = true ∧ r.location ≠ []) := by
  have mirrors := readMirrors_again h
  constructor
  · rintro again ⟨wildcard, present⟩
    rw [toTable, if_neg present] at again
    cases hasForm_of_ofTable again with
    | located empty _ _ => exact ne_nil_of_isWildcard wildcard empty
    | wildcard _ _ _ absent => exact present absent
    | both plain _ _ => exact Bool.eq_false_iff.1 plain wildcard
  · intro usual
    have readsBoth (plain : isWildcard r.scope = false) (scope : Tidy r.scope r.scope)
        (location : Tidy r.location r.location) : ofTable r.toTable = .ok r := by
      rw [toTable, if_neg location.filled]
      refine ofTable_eq_ok_iff.2 ⟨_, r.location, r.scope, _, rfl, rfl, rfl, rfl, ?_, ?_, mirrors⟩
      · exact ownLocation_eq_ok_iff.2 (.inl ⟨location.filled, trimmed_iff_tidy.2 location⟩)
      · exact ownScope_eq_ok_iff.2 (.inr (.inr ⟨scope.filled, plain, trimmed_iff_tidy.2 scope⟩))
    cases hasForm_of_ofTable h with
    | located empty location same =>
      have plain : isWildcard r.scope = false :=
        Bool.eq_false_iff.2 fun wildcard => usual ⟨wildcard, location.filled⟩
      exact readsBoth plain (same ▸ location.again) location.again
    | wildcard starred same away absent =>
      have scope : isWildcard r.scope = true := by rw [same, starred]
      rw [toTable, if_pos absent]
      refine ofTable_eq_ok_iff.2 ⟨_, [], r.scope, _, rfl, rfl, rfl, rfl, ?_, ?_, mirrors⟩
      · exact ownLocation_eq_ok_iff.2 (.inr ⟨rfl, scope, absent⟩)
      · exact ownScope_eq_ok_iff.2
          (.inr (.inl ⟨ne_nil_of_isWildcard scope, scope, absent, rfl⟩))
    | both plain own location =>
      exact readsBoth (own.isWildcard_eq ▸ plain) own.again location.again

end

/-- Every registry of a configuration has the form that the last table of its scope gives it. It is
read back from the table of its places, unless it has both a wildcard scope and a location. -/
theorem load_normal_form {tree : Tree} {conf dir : Text} {registries : List Registry}
    (h : load tree conf dir = .ok registries) :
    ∃ paths held, configurationPaths tree conf dir = .ok paths ∧
      List.Forall₂ (Holds tree) paths held ∧
      ∀ r ∈ registries,
        (∃ table, IsLast held.flatten table ∧ r.scope = declaredScope table ∧ Defines table r ∧
          IsNormal table r) ∧
        (ofTable r.toTable = .ok r ↔ ¬(isWildcard r.scope = true ∧ r.location ≠ [])) := by
  obtain ⟨paths, held, defined, hp, holds, defines, rfl⟩ := load_eq_ok_iff.1 h
  refine ⟨paths, held, hp, holds, fun r mem => ?_⟩
  obtain ⟨table, last, hd⟩ := exists_isLast_of_mem_combine defines mem
  exact ⟨⟨table, last, (eq_declared_of_defines hd).1, hd, isNormal_of_ofTable hd⟩,
    ofTable_toTable_iff hd⟩

theorem load_normal_form_overriding :
    ∃ registries table, load overridingTree "/r.conf" "/d" = .ok registries ∧
      IsNormal table ⟨"quay.io/team", "quay.io/team", ["b.io"]⟩ ∧
      ∀ r ∈ registries, ofTable r.toTable = .ok r := by
  obtain ⟨paths, held, -, -, forms⟩ := load_normal_form load_overriding
  have plain : ∀ r ∈ ([⟨"quay.io", "quay.io", ["m.io"]⟩,
      ⟨"quay.io/team", "quay.io/team", ["b.io"]⟩] : List Registry),
        ¬(isWildcard r.scope = true ∧ r.location ≠ []) := by decide
  obtain ⟨⟨table, -, -, -, normal⟩, -⟩ := forms _ (List.mem_cons_of_mem _ List.mem_cons_self)
  exact ⟨_, table, load_overriding, normal, fun r mem => (forms r mem).2.2 (plain r mem)⟩

end PullAuth.Registry
