import PullAuth.Proofs.CredentialFile.Schema
import PullAuth.Proofs.Json.Depth
import PullAuth.Proofs.Keyed
import PullAuth.Proofs.Text.Kept

/-!
The texts and the bytes that are credential files. A text that is not nested too deep is accepted
exactly if it denotes an object that fits (`Describes`), and the file is that object, completed by
an object for the entries where none was given (`Completes`). Every other one is refused, for one of
two reasons (`Refused`), and so are bytes that are no UTF-8 (`ofBytes_accepts`).
-/
namespace PullAuth.CredentialFile

/-- An object is put in the place of entries that are null, or behind all members where there are no
entries; else the members stay as they are. -/
inductive Completes : Keyed Json → CredentialFile → Prop
  | kept {members : Keyed Json} {entries : Json} : Keyed.get? entriesKey members = some entries →
    entries ≠ .null → Completes members members
  | null {before after : Keyed Json} : entriesKey ∉ before.map Prod.fst →
    Completes (before ++ (entriesKey, .null) :: after)
      (before ++ (entriesKey, .object []) :: after)
  | absent {members : Keyed Json} : entriesKey ∉ members.map Prod.fst →
    Completes members (members ++ [(entriesKey, .object [])])

/-- The text is the one of a credential file. -/
def Describes (t : Text) (file : CredentialFile) : Prop :=
  ∃ members, Json.Denotes t (.object members) ∧ Fits members ∧ Completes members file

/-- Why a text is no credential file: it denotes no value, or one that does not fit. -/
inductive Refused (source t : Text) : ValidationFault → Prop
  | notJson : (∀ v, ¬Json.Denotes t v) → Refused source t (.notJson source)
  | misfit {v : Json} {culprit : Schema.Violation} : Json.Denotes t v →
    (∀ members, v = .object members → ¬Fits members) →
    Schema.credentialFile.check v = some culprit →
    Refused source t (.misfit ⟨Kinds.credentialFile, source, culprit⟩)

theorem completes_iff {members : Keyed Json} {file : CredentialFile} :
    Completes members file ↔ file = withEntries members := by
  unfold withEntries
  constructor
  · rintro (@⟨_, entries, he, present⟩ | @⟨before, after, fresh⟩ | fresh)
    · rw [he]
      cases entries with
      | null => exact absurd rfl present
      | _ => rfl
    · rw [Keyed.get?_append_cons _ after fresh]
      exact (Keyed.put_append_cons _ after fresh).symm
    · rw [Keyed.get?_eq_none_iff.2 fresh]
      exact (Keyed.put_of_not_mem fresh).symm
  · rintro rfl
    split
    · next absent =>
      rw [Keyed.put_of_not_mem (Keyed.get?_eq_none_iff.1 absent)]
      exact .absent (Keyed.get?_eq_none_iff.1 absent)
    · next null =>
      obtain ⟨before, after, rfl, fresh⟩ := Keyed.exists_of_get? null
      rw [Keyed.put_append_cons _ after fresh]
      exact .null fresh
    · next entries present he => exact .kept he present

/-- A value passes the check if it is an object that fits. -/
theorem check_eq_none_iff {v : Json} :
    Schema.credentialFile.check v = none ↔ ∃ members, v = .object members ∧ Fits members :=
  Schema.check_eq_none_iff.trans violations_credentialFile_iff

theorem ofJson_of_fits {source : Text} {members : Keyed Json} (fits : Fits members) :
    ofJson source (.object members) = .ok (withEntries members) := by
  rw [ofJson, Schema.misfit?, check_eq_none_iff.2 ⟨members, rfl, fits⟩]
  rfl

theorem ofJson_eq_error_iff {source : Text} {v : Json} {fault : ValidationFault} :
    ofJson source v = .error fault ↔ ∃ culprit, Schema.credentialFile.check v = some culprit ∧
      fault = .misfit ⟨Kinds.credentialFile, source, culprit⟩ := by
  simp only [ofJson, Schema.misfit?]
  cases Schema.credentialFile.check v with
  | none => simp
  | some culprit => simp [eq_comm]

theorem ofJson_eq_ok_iff {source : Text} {v : Json} {file : CredentialFile} :
    ofJson source v = .ok file ↔
      ∃ members, v = .object members ∧ Fits members ∧ Completes members file := by
  constructor
  · intro h
    cases hc : Schema.credentialFile.check v with
    | none =>
      obtain ⟨members, rfl, fits⟩ := check_eq_none_iff.1 hc
      rw [ofJson_of_fits fits] at h
      cases h
      exact ⟨members, rfl, fits, completes_iff.2 rfl⟩
    | some culprit =>
      rw [ofJson_eq_error_iff.2 ⟨culprit, hc, rfl⟩] at h
      cases h
  · rintro ⟨members, rfl, fits, completes⟩
    rw [ofJson_of_fits fits, completes_iff.1 completes]

theorem ofText_eq_ok_iff {source t : Text} {file : CredentialFile} :
    ofText source t = .ok file ↔ Json.isTooDeep t = false ∧ Describes t file := by
  rw [ofText, Json.readDocument_eq_ok_iff]
  refine and_congr_right fun _ => ⟨?_, ?_⟩
  · rintro ⟨v, denotes, accepted⟩
    obtain ⟨members, rfl, fits, completes⟩ := ofJson_eq_ok_iff.1 accepted
    exact ⟨members, denotes, fits, completes⟩
  · rintro ⟨members, denotes, fits, completes⟩
    exact ⟨_, denotes, ofJson_eq_ok_iff.2 ⟨members, rfl, fits, completes⟩⟩

theorem refused_iff {source t : Text} {fault : ValidationFault} :
    Refused source t fault ↔ (∃ v, Json.Denotes t v ∧ ofJson source v = .error fault) ∨
      (∀ v, ¬Json.Denotes t v) ∧ fault = .notJson source := by
  constructor
  · rintro (undenoted | ⟨denotes, -, hc⟩)
    · exact .inr ⟨undenoted, rfl⟩
    · exact .inl ⟨_, denotes, ofJson_eq_error_iff.2 ⟨_, hc, rfl⟩⟩
  · rintro (⟨v, denotes, refused⟩ | ⟨undenoted, rfl⟩)
    · obtain ⟨culprit, hc, rfl⟩ := ofJson_eq_error_iff.1 refused
      refine .misfit denotes (fun members e fits => ?_) hc
      rw [check_eq_none_iff.2 ⟨members, e, fits⟩] at hc
      cases hc
    · exact .notJson undenoted

theorem ofText_eq_error_iff {source t : Text} {failure : Failure} :
    ofText source t = .error failure ↔ Json.Fails t (Refused source t) failure :=
  Json.readDocument_eq_error_iff fun _ => refused_iff

theorem ofBytes_eq_ok_iff {source : Text} {bs : Bytes} {file : CredentialFile} :
    ofBytes source bs = .ok file ↔
      ∃ t, Utf8.encode? t = some bs ∧ Json.isTooDeep t = false ∧ Describes t file := by
  simp only [ofBytes, ← Utf8.decode_strict_eq_some_iff, ← @ofText_eq_ok_iff source]
  cases Utf8.decode .strict bs with
  | none => simp
  | some t => simp

theorem ofBytes_eq_error_iff {source : Text} {bs : Bytes} {failure : Failure} :
    ofBytes source bs = .error failure ↔
      (∃ t, Utf8.encode? t = some bs ∧ Json.Fails t (Refused source t) failure) ∨
        (∀ t, Utf8.encode? t ≠ some bs) ∧ failure = .validation (.notJson source) := by
  simp only [ofBytes, ne_eq, ← Utf8.decode_strict_eq_some_iff, ← ofText_eq_error_iff]
  cases Utf8.decode .strict bs with
  | none => simp [eq_comm]
  | some t => simp

/-- A text that is not nested too deep is a credential file exactly if it denotes an object that
fits, and the file is that object, completed. Every other one is refused for its reason, and a text
that is nested too deep is a breakdown. Bytes are what the text is that they encode, and refused if
they encode none. -/
theorem ofBytes_accepts (source : Text) :
    (∀ t, (∀ file, ofText source t = .ok file ↔ Json.isTooDeep t = false ∧ Describes t file) ∧
      ∀ failure, ofText source t = .error failure ↔ Json.Fails t (Refused source t) failure) ∧
    ∀ bs, (∀ file, ofBytes source bs = .ok file ↔
        ∃ t, Utf8.encode? t = some bs ∧ Json.isTooDeep t = false ∧ Describes t file) ∧
      ∀ failure, ofBytes source bs = .error failure ↔
        (∃ t, Utf8.encode? t = some bs ∧ Json.Fails t (Refused source t) failure) ∨
          (∀ t, Utf8.encode? t ≠ some bs) ∧ failure = .validation (.notJson source) :=
  ⟨fun _ => ⟨fun _ => ofText_eq_ok_iff, fun _ => ofText_eq_error_iff⟩,
    fun _ => ⟨fun _ => ofBytes_eq_ok_iff, fun _ => ofBytes_eq_error_iff⟩⟩

/-- Twenty thousand brackets denote nothing and yet are not refused. -/
theorem file_of_brackets :
    Refused "<string>" (Text.brackets 20000) (.notJson "<string>") ∧
      ofText "<string>" (Text.brackets 20000) = .error (.breakdown .tooDeep) := by
  have deep : Json.isTooDeep (Text.brackets 20000) = true :=
    Json.isTooDeep_brackets (by decide)
  exact ⟨.notJson (Json.not_denotes_brackets 20000), ofText_eq_error_iff.2 (.tooDeep deep)⟩

end PullAuth.CredentialFile
