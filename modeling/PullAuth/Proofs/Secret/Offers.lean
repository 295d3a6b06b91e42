import PullAuth.Json.Printer
import PullAuth.Merge
import PullAuth.Proofs.CredentialFile.Acceptance
import PullAuth.Proofs.Runs

/-!
What secrets offer. `Secret.offers` says it of one secret, without a word about harvesting: the
decodable entries of the credential file that it carries, under normalized names. Harvesting fails
exactly if the file of some secret is nested too deep (`ofSecrets_eq_error_iff`). Otherwise it hands
on the offers of all secrets in their order, and nothing else (`pairs_ofSecrets`).
-/
namespace PullAuth

/-- The credentials that a secret offers: of the decodable entries of its credential file, if it
carries one. -/
def Secret.offers (s : Secret) : List (Text × Credential) :=
  match Harvest.fileOf s with
  | .ok (.ok file) => (CredentialFile.entries file).filterMap fun (registry, value) =>
    (Credential.ofEntry value.members).toOption.map (Merge.normalized registry, ·)
  | _ => []

/-- The credential file of a secret is nested too deep. -/
def Secret.TooDeep (s : Secret) : Prop :=
  s.type = Harvest.secretType ∧ ∃ bs t, Keyed.get? Harvest.dataKey s.data = some bs ∧
    Utf8.encode? t = some bs ∧ Json.isTooDeep t = true

/-- The secret `pull` with a credential file that has the given entries. -/
def Secret.holding (entries : Keyed Json) : Secret :=
  ⟨some "pull", Harvest.secretType, [(Harvest.dataKey,
    Bytes.ofAscii (Json.write .oneLine (.object [(CredentialFile.entriesKey, .object entries)])))]⟩

/-- A secret whose file consists of opening brackets. -/
def Secret.ofBrackets (n : Nat) : Secret :=
  ⟨some "deep", Harvest.secretType, [(Harvest.dataKey, Bytes.ofAscii (Text.brackets n))]⟩

theorem Secret.tooDeep_ofBrackets {n : Nat} (h : Json.levelLimit < n) :
    (Secret.ofBrackets n).TooDeep :=
  ⟨rfl, _, _, rfl, Utf8.encode?_of_isAscii (Text.isAscii_brackets n), Json.isTooDeep_brackets h⟩

namespace Harvest

theorem ofSecrets_eq_ok_iff {secrets : List Secret} {harvest : Harvest} :
    ofSecrets secrets = .ok harvest ↔
      ∃ yields, List.Forall₂ (fun s y => ofSecret s = .ok y) secrets yields ∧
        join yields = harvest := by
  rw [ofSecrets, Results.map_eq_ok_iff]
  simp only [Results.mapM_eq_ok_iff]

/-- A file that is nested too deep is the only one that is not just refused. -/
theorem fileOf_eq_error_iff {s : Secret} {failure : Failure} :
    fileOf s = .error failure ↔ s.TooDeep ∧ failure = .breakdown .tooDeep := by
  unfold fileOf Secret.TooDeep
  by_cases ht : s.type = secretType
  · rw [if_neg (not_not.2 ht), and_iff_right ht]
    cases Keyed.get? dataKey s.data with
    | none => simp
    | some bs =>
      have read := @CredentialFile.ofBytes_eq_error_iff (secretWords s.name) bs
      simp only [Option.some.injEq, exists_and_left, exists_eq_left']
      constructor
      · intro h
        split at h
        · cases h
        · cases h
        · next other hb =>
          cases h
          obtain ⟨t, encoded, ⟨⟩ | deep⟩ | ⟨-, rfl⟩ := read.1 hb
          · exact absurd rfl (other _)
          · exact ⟨⟨t, encoded, deep⟩, rfl⟩
          · exact absurd rfl (other _)
      · rintro ⟨⟨t, encoded, deep⟩, rfl⟩
        rw [read.2 (.inl ⟨t, encoded, .tooDeep deep⟩)]
  · simp [ht]

theorem ofSecret_eq_error_iff {s : Secret} {failure : Failure} :
    ofSecret s = .error failure ↔ s.TooDeep ∧ failure = .breakdown .tooDeep := by
  rw [← fileOf_eq_error_iff, ofSecret, found]
  cases fileOf s <;> simp [Except.map]

/-- One secret whose file is nested too deep ends the harvest, and nothing else does. -/
theorem ofSecrets_eq_error_iff {secrets : List Secret} {failure : Failure} :
    ofSecrets secrets = .error failure ↔
      (∃ s ∈ secrets, s.TooDeep) ∧ failure = .breakdown .tooDeep := by
  rw [ofSecrets]
  constructor
  · intro h
    cases hm : secrets.mapM ofSecret with
    | ok yields =>
      rw [hm] at h
      cases h
    | error found =>
      rw [hm] at h
      cases h
      obtain ⟨s, hs, e⟩ := Results.exists_of_mapM_error hm
      obtain ⟨deep, rfl⟩ := ofSecret_eq_error_iff.1 e
      exact ⟨⟨s, hs, deep⟩, rfl⟩
  · rintro ⟨⟨s, hs, deep⟩, rfl⟩
    cases hm : secrets.mapM ofSecret with
    | ok yields =>
      obtain ⟨yield, -, e⟩ := Results.exists_right_of_mem (Results.mapM_eq_ok_iff.1 hm) hs
      rw [ofSecret_eq_error_iff.2 ⟨deep, rfl⟩] at e
      cases e
    | error found =>
      obtain ⟨s', -, e⟩ := Results.exists_of_mapM_error hm
      obtain ⟨-, rfl⟩ := ofSecret_eq_error_iff.1 e
      rfl

theorem exists_ofSecrets_iff {secrets : List Secret} :
    (∃ harvest, ofSecrets secrets = .ok harvest) ↔ ∀ s ∈ secrets, ¬s.TooDeep := by
  constructor
  · rintro ⟨harvest, h⟩ s hs deep
    rw [ofSecrets_eq_error_iff.2 ⟨⟨s, hs, deep⟩, rfl⟩] at h
    cases h
  · intro shallow
    cases h : ofSecrets secrets with
    | ok harvest => exact ⟨harvest, rfl⟩
    | error failure =>
      obtain ⟨⟨s, hs, deep⟩, -⟩ := ofSecrets_eq_error_iff.1 h
      exact absurd deep (shallow s hs)

/-- What a secret yields comes from the file that it carries, or it was skipped. -/
theorem ofSecret_eq_ok_iff {s : Secret} {yield : Harvest} :
    ofSecret s = .ok yield ↔
      (∃ file : CredentialFile, fileOf s = .ok (.ok file) ∧
        yield = ofFound s.name (.ok (file.entries.map fun (registry, value) =>
          (registry, Credential.ofEntry value.members)))) ∨
      ∃ reason, fileOf s = .ok (.error reason) ∧ yield = ofFound s.name (.error reason) := by
  rw [ofSecret, found]
  cases fileOf s with
  | error failure => simp [Except.map]
  | ok carried => cases carried <;> simp [Except.map, eq_comm]

/-- The credentials of the decodable entries are what is offered. -/
theorem map_decoded (entries : Keyed Json) :
    ((decoded (entries.map fun (registry, value) =>
        (registry, Credential.ofEntry value.members))).map fun (registry, credential) =>
      (Merge.normalized registry, credential)) =
    entries.filterMap fun (registry, value) =>
      (Credential.ofEntry value.members).toOption.map (Merge.normalized registry, ·) := by
  induction entries with
  | nil => rfl
  | cons pair rest ih =>
    obtain ⟨registry, value⟩ := pair
    rw [decoded] at ih ⊢
    rw [List.map_cons, List.filterMap_cons, List.filterMap_cons]
    cases h : Credential.ofEntry value.members with
    | error fault => simpa [h, Except.toOption] using ih
    | ok credential => simpa [h, Except.toOption] using ih

theorem pairs_ofSecret {s : Secret} {yield : Harvest} (h : ofSecret s = .ok yield) :
    Merge.pairs yield.configs = s.offers := by
  rw [Secret.offers]
  rcases ofSecret_eq_ok_iff.1 h with ⟨file, hf, rfl⟩ | ⟨reason, hf, rfl⟩
  · rw [hf]
    refine Eq.trans ?_ (map_decoded (CredentialFile.entries file))
    simp [Merge.pairs, ofFound]
  · rw [hf]
    rfl

/-- Harvesting hands on what the secrets offer, in their order. -/
theorem pairs_ofSecrets {secrets : List Secret} {harvest : Harvest}
    (h : ofSecrets secrets = .ok harvest) :
    Merge.pairs harvest.configs = secrets.flatMap Secret.offers := by
  obtain ⟨yields, each, rfl⟩ := ofSecrets_eq_ok_iff.1 h
  clear h
  induction each with
  | nil => rfl
  | @cons s yield secrets yields first _ ih =>
    calc Merge.pairs (join (yield :: yields)).configs
        = Merge.pairs yield.configs ++ Merge.pairs (join yields).configs := by
          simp only [join, Merge.pairs, List.flatMap_cons, List.flatMap_append]
      _ = s.offers ++ secrets.flatMap Secret.offers := by rw [pairs_ofSecret first, ih]
      _ = (s :: secrets).flatMap Secret.offers := List.flatMap_cons.symm

end Harvest

end PullAuth
