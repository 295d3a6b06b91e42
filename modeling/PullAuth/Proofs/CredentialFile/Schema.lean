import PullAuth.Proofs.CredentialFile.Global
import PullAuth.Proofs.Merge.Overlay
import PullAuth.Proofs.Schema

/-!
What the schema of credential files asks for. A credential file is an object whose entries, unless
they are null, are objects in which a name, a password, an e-mail address and an `auth` are texts
(`violations_credentialFile_iff`).
-/
namespace PullAuth

namespace CredentialFile

open Schema

/-- A member is a text, if it is there. -/
def TextIfThere (members : Keyed Json) (key : Text) : Prop :=
  ∀ value, Keyed.get? key members = some value → ∃ t, value = .string t

/-- The members of an entry that are texts. -/
def textKeys : List Text := ["auth", "username", "password", "email"]

/-- An entry of a credential file. -/
def IsEntry (value : Json) : Prop :=
  ∃ members, value = .object members ∧ ∀ key ∈ textKeys, TextIfThere members key

/-- The members of a credential file. -/
def Fits (file : Keyed Json) : Prop :=
  ∀ entries, Keyed.get? entriesKey file = some entries →
    entries = .null ∨ ∃ auths, entries = .object auths ∧ ∀ entry ∈ auths, IsEntry entry.2

theorem violations_entrySchema_iff {value : Json} :
    entrySchema.violations value = [] ↔ IsEntry value := by
  have properties : entrySchema.properties =
      textKeys.map fun key => (key, { kinds := [.string] }) := rfl
  have object (members : Keyed Json) : entrySchema.violations (.object members) = [] ↔
      ∀ key ∈ textKeys, TextIfThere members key := by
    rw [violations_object_eq_nil_iff, properties, propertyViolations_eq_nil_iff,
      List.forall_mem_map]
    simp only [violations_string_iff]
    exact ⟨fun h => h.2.1, fun h => ⟨rfl, h, rfl⟩⟩
  constructor
  · intro h
    obtain ⟨members, rfl⟩ := exists_object_of_violations rfl h
    exact ⟨members, rfl, (object members).1 h⟩
  · rintro ⟨members, rfl, h⟩
    exact (object members).2 h

/-- Entries fit if they are null or an object of entries. -/
theorem violations_entries_iff {value : Json} :
    Schema.violations { kinds := [.object, .null], others := some entrySchema } value = [] ↔
      value = .null ∨ ∃ auths, value = .object auths ∧ ∀ entry ∈ auths, IsEntry entry.2 := by
  cases value with
  | null => exact ⟨fun _ => .inl rfl, fun _ => rfl⟩
  | object auths =>
    have all : (auths.filter fun m => !Keyed.has m.1 ([] : List (Text × Schema))) = auths :=
      List.filter_eq_self.2 fun _ _ => rfl
    rw [violations_object_eq_nil_iff]
    simp only [all, otherViolations_some_eq_nil_iff, violations_entrySchema_iff]
    refine ⟨fun h => .inr ⟨auths, rfl, h.2.2⟩, ?_⟩
    rintro (h | ⟨auths', h, entries⟩)
    · cases h
    · cases h
      exact ⟨rfl, rfl, entries⟩
  | _ =>
    refine ⟨fun h => ?_, ?_⟩
    · simp [violations, ownBreaches, lackBreaches, kindBreaches, ValueKind.holds] at h
    · rintro (h | ⟨auths, h, -⟩) <;> cases h

/-- A value fits the schema if it is the object of a credential file. -/
theorem violations_credentialFile_iff {value : Json} :
    Schema.credentialFile.violations value = [] ↔
      ∃ file, value = .object file ∧ Fits file := by
  have object (file : Keyed Json) :
      Schema.credentialFile.violations (.object file) = [] ↔ Fits file := by
    rw [credentialFile_eq, violations_object_eq_nil_iff, propertyViolations_eq_nil_iff,
      List.forall_mem_singleton]
    simp only [violations_entries_iff]
    exact ⟨fun h => h.2.1, fun h => ⟨rfl, h, rfl⟩⟩
  constructor
  · intro h
    obtain ⟨file, rfl⟩ := exists_object_of_violations (credentialFile_eq ▸ rfl) h
    exact ⟨file, rfl, (object file).1 h⟩
  · rintro ⟨file, rfl, h⟩
    exact (object file).2 h

end CredentialFile

end PullAuth
