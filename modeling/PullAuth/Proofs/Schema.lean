import PullAuth.Schema.Kinds

/-!
What a schema asks for. An object fits if it lacks nothing and its members fit in turn, those under
the keys of the properties and the others (`violations_object_eq_nil_iff`); a value of a kind is of
that kind.
-/
namespace PullAuth.Schema

theorem propertyViolations_eq_nil_iff {properties : List (Text × Schema)} {members : Keyed Json} :
    propertyViolations properties members = [] ↔ ∀ property ∈ properties, ∀ value,
      Keyed.get? property.1 members = some value → property.2.violations value = [] := by
  induction properties with
  | nil => simp [propertyViolations]
  | cons property rest ih =>
    obtain ⟨key, schema⟩ := property
    rw [propertyViolations, List.append_eq_nil_iff, ih, List.forall_mem_cons]
    refine and_congr_left fun _ => ?_
    cases Keyed.get? key members with
    | none => simp
    | some value => simp

theorem otherViolations_some_eq_nil_iff {schema : Schema} {members : List (Text × Json)} :
    otherViolations (some schema) members = [] ↔
      ∀ m ∈ members, schema.violations m.2 = [] := by
  simp [otherViolations, List.flatMap_eq_nil_iff]

theorem violations_object_eq_nil_iff {schema : Schema} {members : Keyed Json} :
    schema.violations (.object members) = [] ↔
      (forbiddenBreaches schema.impossible (.object members) ++ ownBreaches schema.kinds
        schema.required schema.nonEmpty schema.missingFirst (.object members) = []) ∧
      propertyViolations schema.properties members = [] ∧
      otherViolations schema.others
        (members.filter fun m => !Keyed.has m.1 schema.properties) = [] := by
  obtain ⟨kinds, properties, others, required, nonEmpty, missingFirst, impossible⟩ := schema
  simp only [violations, List.append_eq_nil_iff, List.map_eq_nil_iff]

/-- Only an object is of the kind of objects. -/
theorem exists_object_of_violations {schema : Schema} (hk : schema.kinds = [.object])
    {value : Json} (h : schema.violations value = []) : ∃ members, value = .object members := by
  obtain ⟨kinds, properties, others, required, nonEmpty, missingFirst, impossible⟩ := schema
  cases hk
  cases value with
  | object members => exact ⟨members, rfl⟩
  | _ =>
    simp only [violations, ownBreaches, kindBreaches, ValueKind.holds] at h
    cases missingFirst <;> simp at h

theorem violations_string_iff {value : Json} :
    Schema.violations { kinds := [.string] } value = [] ↔ ∃ t, value = .string t := by
  cases value with
  | string t =>
    refine ⟨fun _ => ⟨t, rfl⟩, fun _ => ?_⟩
    cases t <;> rfl
  | _ =>
    refine ⟨fun h => ?_, ?_⟩
    · simp [violations, ownBreaches, lackBreaches, kindBreaches, ValueKind.holds] at h
    · rintro ⟨t, h⟩
      cases h

end PullAuth.Schema
