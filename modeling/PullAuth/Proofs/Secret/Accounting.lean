import Mathlib.Data.List.Basic
import Mathlib.Data.List.Forall2
import PullAuth.Proofs.CredentialFile.WellFormed

/-!
What becomes of every secret and of every entry. A secret is skipped as a whole, or it yields one
configuration with its name, in which each entry of its file stands unless it is skipped by itself:
`Yields` and `Sorts` say when which of the two happens. Harvesting a list puts together what its
secrets yield (`ofSecrets_accounts`): nothing is lost, nothing comes twice, and no secret has to do
with another. Only a file that is nested too deep is not skipped but ends the harvest. An entry is
only skipped for what is wrong with its base64, never because its `auth` is no text, since files
with such entries are refused (`ofEntry_cases`).
-/
namespace PullAuth.Harvest

/-- A secret carries a credential file: it is of the right type, and under the right key stand the
bytes of the file. -/
def Carries (s : Secret) (file : CredentialFile) : Prop :=
  s.type = secretType ∧ ∃ bs, Keyed.get? dataKey s.data = some bs ∧
    CredentialFile.ofBytes (secretWords s.name) bs = .ok file

/-- The reason for which a secret is refused. -/
inductive Refused (s : Secret) : Reason → Prop
  | otherType : s.type ≠ secretType → Refused s (.otherType s.type)
  | missingKey : s.type = secretType → Keyed.get? dataKey s.data = none → Refused s .missingKey
  | badFile {bs : Bytes} {fault : ValidationFault} : s.type = secretType →
    Keyed.get? dataKey s.data = some bs →
    CredentialFile.ofBytes (secretWords s.name) bs = .error (.validation fault) →
    Refused s (.refused fault)

/-- The members of an entry have an `auth` that is no base64 without its line ends. -/
def BadAuth (members : Keyed Json) (fault : Base64.Fault) : Prop :=
  ∃ t, Keyed.get? "auth" members = some (.string t) ∧
    Base64.decode (t.filter fun c => !(c = '\r' || c = '\n')) = .error fault

/-- The entries of a file, each of which is either among the credentials or skipped. -/
inductive Sorts (name : Option Text) : Keyed Json → Keyed Credential → List Skipped → Prop
  | nil : Sorts name [] [] []
  | kept {registry : Text} {members : Keyed Json} {credential : Credential} {rest : Keyed Json}
    {auths : Keyed Credential} {skipped : List Skipped} :
    (∀ fault, ¬BadAuth members fault) → Credential.ofEntry members = .ok credential →
    Sorts name rest auths skipped →
    Sorts name ((registry, .object members) :: rest) ((registry, credential) :: auths) skipped
  | skipped {registry : Text} {members : Keyed Json} {fault : Base64.Fault} {rest : Keyed Json}
    {auths : Keyed Credential} {skipped : List Skipped} :
    BadAuth members fault → Sorts name rest auths skipped →
    Sorts name ((registry, .object members) :: rest) auths
      (⟨name, some registry, .entry (.notBase64 fault)⟩ :: skipped)

/-- What one secret yields. -/
inductive Yields (s : Secret) : Harvest → Prop
  | skipped {reason : Reason} : (∀ file, ¬Carries s file) → Refused s reason →
    Yields s ⟨[], [⟨s.name, none, reason⟩]⟩
  | config {file : CredentialFile} {auths : Keyed Credential} {skipped : List Skipped} :
    Carries s file → ((CredentialFile.entries file).map Prod.fst).Nodup →
    Sorts s.name (CredentialFile.entries file) auths skipped →
    Yields s ⟨[⟨s.name, auths⟩], skipped⟩

/-! ## Entries -/

theorem ofEntry_of_no_auth {members : Keyed Json} (h : Keyed.get? "auth" members = none) :
    ∃ credential, Credential.ofEntry members = .ok credential := by
  unfold Credential.ofEntry
  split
  · exact ⟨_, rfl⟩
  · rw [h]
    exact ⟨_, rfl⟩

/-- An `auth` that is a text is decoded, whatever else is in the entry. -/
theorem ofEntry_of_auth {members : Keyed Json} {t : Text}
    (h : Keyed.get? "auth" members = some (.string t)) :
    Credential.ofEntry members = (Credential.decode t).mapError .notBase64 := by
  have indirect : Credential.outright? members = none := by
    rw [Credential.outright?, h]
    rfl
  have text : Credential.authText (.string t) = .ok t := by
    cases t <;> rfl
  unfold Credential.ofEntry
  rw [indirect, h]
  simp only [Option.getD_some, text]
  rfl

/-- An entry gives a credential unless its `auth` is no base64. -/
theorem ofEntry_cases {members : Keyed Json} (h : CredentialFile.IsEntry (.object members)) :
    (∃ credential, Credential.ofEntry members = .ok credential ∧ ∀ fault, ¬BadAuth members fault) ∨
      ∃ fault, Credential.ofEntry members = .error (.notBase64 fault) ∧ BadAuth members fault := by
  obtain ⟨_, ⟨⟩, texts⟩ := h
  cases ha : Keyed.get? "auth" members with
  | none =>
    obtain ⟨credential, ok⟩ := ofEntry_of_no_auth ha
    refine .inl ⟨credential, ok, fun fault ⟨t, ht, _⟩ => ?_⟩
    rw [ha] at ht
    cases ht
  | some auth =>
    obtain ⟨t, rfl⟩ := texts "auth" List.mem_cons_self auth ha
    rw [ofEntry_of_auth ha, Credential.decode]
    cases hd : Base64.decode (t.filter fun c => !(c = '\r' || c = '\n')) with
    | ok bytes =>
      refine .inl ⟨_, rfl, fun fault ⟨t', ht, bad⟩ => ?_⟩
      rw [ha] at ht
      cases ht
      rw [hd] at bad
      cases bad
    | error fault => exact .inr ⟨fault, rfl, t, ha, hd⟩

/-- The entries of a file are found with their credentials, or skipped, one after another. -/
theorem sorts_entries (name : Option Text) {entries : Keyed Json}
    (h : ∀ entry ∈ entries, CredentialFile.IsEntry entry.2) :
    Sorts name entries
      (decoded (entries.map fun (registry, value) => (registry, Credential.ofEntry value.members)))
      (undecoded name
        (entries.map fun (registry, value) => (registry, Credential.ofEntry value.members))) := by
  induction entries with
  | nil => exact .nil
  | cons entry rest ih =>
    obtain ⟨registry, value⟩ := entry
    obtain ⟨first, others⟩ := List.forall_mem_cons.1 h
    obtain ⟨members, rfl, -⟩ := id first
    have sorted := ih others
    rw [decoded, undecoded] at sorted ⊢
    rw [List.map_cons, List.filterMap_cons, List.filterMap_cons]
    obtain ⟨credential, found, good⟩ | ⟨fault, found, bad⟩ := ofEntry_cases first
    · simp only [Json.members, found]
      exact .kept good found sorted
    · simp only [Json.members, found]
      exact .skipped bad sorted

/-! ## Secrets -/

theorem fileOf_eq_ok_iff {s : Secret} {file : CredentialFile} :
    fileOf s = .ok (.ok file) ↔ Carries s file := by
  unfold fileOf Carries
  by_cases ht : s.type = secretType
  · rw [if_neg (not_not.2 ht)]
    cases Keyed.get? dataKey s.data with
    | none => simp
    | some bs =>
      simp only [ht, true_and, Option.some.injEq, exists_eq_left']
      split <;> simp_all
  · simp [ht]

theorem refused_of_fileOf {s : Secret} {reason : Reason} (h : fileOf s = .ok (.error reason)) :
    Refused s reason := by
  unfold fileOf at h
  split at h
  · next ht =>
    cases h
    exact .otherType ht
  next ht =>
  rw [not_not] at ht
  split at h
  · next hk =>
    cases h
    exact .missingKey ht hk
  · next bs hk =>
    split at h
    · cases h
    · next refused =>
      cases h
      exact .badFile ht hk refused
    · cases h

theorem yields_of_ofSecret {s : Secret} {yield : Harvest} (h : ofSecret s = .ok yield) :
    Yields s yield := by
  rcases ofSecret_eq_ok_iff.1 h with ⟨file, hf, rfl⟩ | ⟨reason, hf, rfl⟩
  · obtain ⟨-, bs, -, read⟩ := id (fileOf_eq_ok_iff.1 hf)
    obtain ⟨-, entries, legible⟩ := CredentialFile.wellFormed_entries
      (CredentialFile.wellFormed_of_ofBytes read)
    exact .config (fileOf_eq_ok_iff.1 hf) (Json.legible_object_iff.1 legible).1
      (sorts_entries s.name entries)
  · refine .skipped (fun file carried => ?_) (refused_of_fileOf hf)
    rw [fileOf_eq_ok_iff.2 carried] at hf
    cases hf

theorem join_append (first second : List Harvest) :
    join (first ++ second) = ⟨(join first).configs ++ (join second).configs,
      (join first).skipped ++ (join second).skipped⟩ := by
  simp only [join, List.flatMap_append]

theorem ofSecrets_append (secrets more : List Secret) :
    ofSecrets (secrets ++ more) = ofSecrets secrets >>= fun first =>
      (ofSecrets more).map fun second =>
        ⟨first.configs ++ second.configs, first.skipped ++ second.skipped⟩ := by
  rw [ofSecrets, ofSecrets, ofSecrets, List.mapM_append]
  cases secrets.mapM ofSecret with
  | error failure => rfl
  | ok first =>
    cases more.mapM ofSecret with
    | error failure => rfl
    | ok second => exact congrArg Except.ok (join_append first second)

/-- Harvesting a list of secrets puts together what each of them yields, in their order, unless the
file of one is nested too deep. Then, and only then, the harvest breaks down. What more secrets
yield comes behind. -/
theorem ofSecrets_accounts (secrets : List Secret) :
    ((∃ yields, List.Forall₂ Yields secrets yields ∧
        ofSecrets secrets =
          .ok ⟨yields.flatMap Harvest.configs, yields.flatMap Harvest.skipped⟩) ↔
      ∀ s ∈ secrets, ¬s.TooDeep) ∧
    (∀ failure, ofSecrets secrets = .error failure ↔
      (∃ s ∈ secrets, s.TooDeep) ∧ failure = .breakdown .tooDeep) ∧
    ∀ more, ofSecrets (secrets ++ more) = ofSecrets secrets >>= fun first =>
      (ofSecrets more).map fun second =>
        ⟨first.configs ++ second.configs, first.skipped ++ second.skipped⟩ := by
  refine ⟨⟨?_, fun shallow => ?_⟩, fun failure => ofSecrets_eq_error_iff,
    ofSecrets_append secrets⟩
  · rintro ⟨yields, -, h⟩
    exact exists_ofSecrets_iff.1 ⟨_, h⟩
  · obtain ⟨harvest, h⟩ := exists_ofSecrets_iff.2 shallow
    obtain ⟨yields, each, rfl⟩ := ofSecrets_eq_ok_iff.1 h
    exact ⟨yields, each.imp fun s yield => yields_of_ofSecret, h⟩

/-- A secret whose file is twenty thousand brackets is one without a credential file, and yet it
ends the harvest. -/
theorem ofSecrets_of_brackets :
    (∀ file, ¬CredentialFile.Describes (Text.brackets 20000) file) ∧
      ofSecrets [Secret.ofBrackets 20000] = .error (.breakdown .tooDeep) := by
  refine ⟨?_, ofSecrets_eq_error_iff.2 ⟨⟨_, List.mem_cons_self, ?_⟩, rfl⟩⟩
  · rintro file ⟨members, denotes, -⟩
    exact Json.not_denotes_brackets 20000 _ denotes
  · exact Secret.tooDeep_ofBrackets (by decide)

end PullAuth.Harvest
