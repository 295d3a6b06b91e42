import PullAuth.CredentialFile
import PullAuth.Proofs.File.Operations
import PullAuth.Proofs.Json.Depth

/-!
What the global credential file is once it is loaded. It was checked against its schema, so its
entries are an object, and credentials can be laid over it (`hasEntriesObject_of_loadGlobal`).
Loading fails in ways of its own, never for want of credentials.
-/
namespace PullAuth

theorem Failure.ofPath_ne_noCredentials {report : SystemError → Failure}
    (h : ∀ e, report e ≠ .noCredentials) (fault : PathFault) :
    Failure.ofPath report fault ≠ .noCredentials := by
  cases fault with
  | system e => exact h e
  | unencodable => exact nofun
  | nullCharacter => exact nofun

namespace CredentialFile

theorem loadGlobal_eq (tree : Tree) (home : Option Text) (file : Text) :
    loadGlobal tree home file =
      match pathOf home file with
      | .error failure => .error failure
      | .ok p => (load? tree p).map fun found => found.getD empty := by
  unfold loadGlobal
  cases pathOf home file with
  | error failure => rfl
  | ok p =>
    cases h : load? tree p with
    | error failure =>
      simp only [bind, Except.bind, h]
      rfl
    | ok found =>
      simp only [bind, Except.bind, h]
      rfl

/-! ## The entries of a checked file -/

/-- The schema of an entry. -/
def entrySchema : Schema where
  kinds := [.object]
  properties := [("auth", { kinds := [.string] }), ("username", { kinds := [.string] }),
    ("password", { kinds := [.string] }), ("email", { kinds := [.string] })]

theorem credentialFile_eq : Schema.credentialFile =
    { kinds := [.object],
      properties :=
        [(entriesKey, { kinds := [.object, .null], others := some entrySchema })] } := by
  with_unfolding_all rfl

/-- The entries of a file that fits the schema are an object or null, if there are any. -/
theorem entries_of_violations {value entries : Json}
    (h : Schema.credentialFile.violations value = [])
    (he : Keyed.get? entriesKey value.members = some entries) :
    entries = .null ∨ entries.isObject = true := by
  rw [credentialFile_eq] at h
  cases value with
  | object members =>
    rw [Json.members] at he
    simp only [Schema.violations, Schema.propertyViolations, he, List.append_eq_nil_iff,
      List.map_eq_nil_iff] at h
    -- Of the violations of the entries those that matter are about their kind.
    have kind := h.2.1.1.1.2
    simp only [Schema.ownBreaches, Schema.lackBreaches, Schema.kindBreaches] at kind
    cases entries with
    | null => exact .inl rfl
    | object members => exact .inr rfl
    | _ => cases kind
  | _ => cases he

theorem hasEntriesObject_withEntries {members : Keyed Json}
    (h : ∀ entries, Keyed.get? entriesKey members = some entries →
      entries = .null ∨ entries.isObject = true) :
    hasEntriesObject (withEntries members) = true := by
  have there : ∃ entries, Keyed.get? entriesKey (withEntries members) = some entries ∧
      entries.isObject = true := by
    unfold withEntries
    split
    · exact ⟨.object [], by rw [Keyed.get?_put, if_pos rfl], rfl⟩
    · exact ⟨.object [], by rw [Keyed.get?_put, if_pos rfl], rfl⟩
    · next entries hne he =>
      rcases h entries he with e | e
      · exact absurd e hne
      · exact ⟨entries, he, e⟩
  obtain ⟨entries, he, ho⟩ := there
  -- Once there is an object, nothing more is put in.
  have same : withEntries (withEntries members) = withEntries members := by
    rw [withEntries, he]
    cases entries with
    | object members => rfl
    | _ => cases ho
  rw [hasEntriesObject, same, he]
  exact ho

theorem hasEntriesObject_of_ofBytes {source : Text} {bs : Bytes} {file : CredentialFile}
    (h : ofBytes source bs = .ok file) : hasEntriesObject file = true := by
  unfold ofBytes at h
  split at h
  · obtain ⟨-, value, -, made⟩ := Json.readDocument_eq_ok_iff.1 h
    unfold ofJson at made
    split at made
    · cases made
    · next fits =>
      cases made
      rw [Schema.misfit?, Option.map_eq_none_iff, Schema.check_eq_none_iff] at fits
      exact hasEntriesObject_withEntries fun entries he => entries_of_violations fits he
  · cases h

/-- The entries of a global file are an object, whether the file is there or not. -/
theorem hasEntriesObject_of_loadGlobal {tree : Tree} {home : Option Text} {path : Text}
    {file : CredentialFile} (h : loadGlobal tree home path = .ok file) :
    hasEntriesObject file = true := by
  rw [loadGlobal_eq] at h
  cases hp : pathOf home path with
  | error failure =>
    rw [hp] at h
    cases h
  | ok p =>
    simp only [hp] at h
    cases hl : load? tree p with
    | error failure =>
      rw [hl] at h
      cases h
    | ok found =>
      rw [hl] at h
      cases h
      unfold load? at hl
      split at hl
      · cases hl
        rfl
      · cases hl
      · obtain ⟨loaded, ho, rfl⟩ := Results.map_eq_ok_iff.1 (Results.mapError_eq_ok_iff.1 hl)
        exact hasEntriesObject_of_ofBytes ho

/-! ## Failures of loading -/

/-- A file in bytes is refused, or it is nested too deep. -/
theorem ofBytes_error_cases {source : Text} {bs : Bytes} {failure : Failure}
    (h : ofBytes source bs = .error failure) :
    (∃ fault, failure = .validation fault) ∨ failure = .breakdown .tooDeep := by
  unfold ofBytes at h
  split at h
  · rcases (Json.readDocument_eq_error_iff fun _ => Iff.rfl).1 h with _ | _
    · exact .inl ⟨_, rfl⟩
    · exact .inr rfl
  · cases h
    exact .inl ⟨_, rfl⟩

theorem loadGlobal_ne_noCredentials (tree : Tree) (home : Option Text) (file : Text) :
    loadGlobal tree home file ≠ .error .noCredentials := by
  have spelling : pathOf home file ≠ .error .noCredentials := by
    unfold pathOf userPath
    simp only
    split
    · split <;> exact nofun
    · exact nofun
  have reading (p : Path) : load? tree p ≠ .error .noCredentials := by
    unfold load?
    split
    · exact nofun
    · next fault _ _ =>
      have unreadable (e : SystemError) :
          Failure.configuration (.unreadable p e) ≠ .noCredentials := nofun
      intro h
      exact Failure.ofPath_ne_noCredentials unreadable fault (Except.error.inj h)
    · next bs _ =>
      cases h : ofBytes p.toText bs with
      | ok file => exact nofun
      | error failure =>
        rcases ofBytes_error_cases h with ⟨fault, rfl⟩ | rfl <;> exact nofun
  rw [loadGlobal_eq]
  cases hp : pathOf home file with
  | error failure =>
    intro h
    exact spelling (hp.trans (congrArg _ (Except.error.inj h)))
  | ok p =>
    intro h
    cases hl : load? tree p with
    | error failure =>
      simp only [hl, Except.map] at h
      exact reading p (hl.trans (congrArg _ (Except.error.inj h)))
    | ok found =>
      simp only [hl, Except.map] at h
      cases h

end CredentialFile

end PullAuth
