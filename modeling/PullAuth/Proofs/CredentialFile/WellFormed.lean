import PullAuth.Proofs.Bytes.Base64
import PullAuth.Proofs.CredentialFile.Acceptance
import PullAuth.Proofs.Json.Order
import PullAuth.Proofs.Runs
import PullAuth.Proofs.Secret.Offers
import PullAuth.Proofs.Text.Occurrences
import PullAuth.Proofs.Text.Strict

/-!
Credential files as texts have them. A file that was read is well formed: it is legible, and its
entries are an object of entries (`wellFormed_of_ofBytes`). The credentials of secrets have names
that were read as well, so laying them over a well-formed file gives one again
(`wellFormed_of_merge`). Putting the members of a well-formed file in order changes nothing that
counts (`wellFormed_inOrder`).
-/
namespace PullAuth

namespace Json

theorem legible_object_iff {members : List (Text × Json)} :
    Legible (object members) ↔ (members.map Prod.fst).Nodup ∧ (∀ m ∈ members, m.1.IsJoined) ∧
      ∀ m ∈ members, Legible m.2 := by
  constructor
  · intro h
    cases h with
    | object nodup joined legible => exact ⟨nodup, joined, legible⟩
  · exact fun ⟨nodup, joined, legible⟩ => .object nodup joined legible

theorem legible_put {m : Keyed Json} (h : Legible (object m)) {key : Text} {value : Json}
    (hk : key.IsJoined) (hv : Legible value) : Legible (object (Keyed.put key value m)) := by
  obtain ⟨nodup, joined, legible⟩ := legible_object_iff.1 h
  refine .object (Keyed.nodup_keys_put key value m nodup) (fun pair hp => ?_) fun pair hp => ?_
  · rcases Keyed.mem_put hp with rfl | hp
    · exact hk
    · exact joined pair hp
  · rcases Keyed.mem_put hp with rfl | hp
    · exact hv
    · exact legible pair hp

theorem legible_putAll {m : Keyed Json} (h : Legible (object m)) {pairs : List (Text × Json)}
    (hp : ∀ pair ∈ pairs, pair.1.IsJoined ∧ Legible pair.2) :
    Legible (object (Keyed.putAll m pairs)) := by
  induction pairs generalizing m with
  | nil => exact h
  | cons pair pairs ih =>
    obtain ⟨first, others⟩ := List.forall_mem_cons.1 hp
    exact ih (legible_put h first.1 first.2) others

end Json

theorem Text.isJoined_of_isScalar {t : Text} (h : t.IsScalar) : t.IsJoined := by
  induction t with
  | nil => exact .nil
  | cons c t ih =>
    obtain ⟨first, others⟩ := List.forall_mem_cons.1 h
    refine List.isChain_cons.2 ⟨fun d _ => ?_, ih others⟩
    rw [CodePoint.isHighSurrogate_of_not_isSurrogate first, Bool.false_and]

theorem Text.isJoined_of_isAscii {t : Text} (h : t.IsAscii) : t.IsJoined :=
  isJoined_of_isScalar fun c hc =>
    Utf8.isSurrogate_of_range (.inl (Nat.lt_trans (h c hc) (by decide)))

theorem Text.IsJoined.of_suffix {s t : Text} (h : t.IsJoined) (hs : s <:+ t) : s.IsJoined :=
  List.IsChain.suffix h hs

namespace CredentialFile

/-- A credential file that some text has: it is legible, and its entries are an object of
entries. -/
structure WellFormed (file : CredentialFile) : Prop where
  legible : Json.Legible (.object file)
  entries : ∃ auths, Keyed.get? entriesKey file = some (.object auths) ∧
    ∀ entry ∈ auths, IsEntry entry.2

theorem isJoined_entriesKey : entriesKey.IsJoined :=
  Text.isJoined_of_isAscii (by decide)

theorem wellFormed_withEntries {members : Keyed Json} (hl : Json.Legible (.object members))
    (hf : Fits members) : WellFormed (withEntries members) := by
  have none_yet : WellFormed (Keyed.put entriesKey (.object []) members) :=
    ⟨Json.legible_put hl isJoined_entriesKey (Json.legible_object_iff.2 (by simp)), [],
      by rw [Keyed.get?_put, if_pos rfl], fun _ h => nomatch h⟩
  unfold withEntries
  split
  · exact none_yet
  · exact none_yet
  · next entries hn he =>
    obtain rfl | ⟨auths, rfl, all⟩ := hf entries he
    · exact absurd rfl hn
    · exact ⟨hl, auths, he, all⟩

/-- A file that was read strictly is well formed. -/
theorem wellFormed_of_ofBytes {source : Text} {bs : Bytes} {file : CredentialFile}
    (h : ofBytes source bs = .ok file) : WellFormed file := by
  obtain ⟨t, encoded, -, members, denotes, fits, completes⟩ := ofBytes_eq_ok_iff.1 h
  have scalar : t.IsScalar := Utf8.isScalar_iff_encode?.2 ⟨bs, encoded⟩
  have legible := Json.legible_of_read? scalar (Json.read?_eq_some_iff.2 denotes)
  rw [completes_iff.1 completes]
  exact wellFormed_withEntries legible fits

theorem WellFormed.fits {file : CredentialFile} (h : WellFormed file) : Fits file := by
  obtain ⟨auths, ha, all⟩ := h.entries
  intro entries he
  rw [ha] at he
  cases he
  exact .inr ⟨auths, rfl, all⟩

/-- The entries of a well-formed file. -/
theorem wellFormed_entries {file : CredentialFile} (h : WellFormed file) :
    Keyed.get? entriesKey file = some (.object (entries file)) ∧
      (∀ entry ∈ entries file, IsEntry entry.2) ∧ Json.Legible (.object (entries file)) := by
  obtain ⟨auths, ha, all⟩ := h.entries
  obtain ⟨nodup, -, legible⟩ := Json.legible_object_iff.1 h.legible
  have same : entries file = auths := by
    rw [entries, ha]
    rfl
  rw [same]
  exact ⟨ha, all, legible _ ((Keyed.get?_eq_some_iff nodup).1 ha)⟩

/-- An object is there for the entries, so none is put in. -/
theorem withEntries_of_wellFormed {file : CredentialFile} (h : WellFormed file) :
    withEntries file = file := by
  obtain ⟨auths, ha, -⟩ := h.entries
  rw [withEntries, ha]

end CredentialFile

/-! ## Merging -/

/-- A file that a secret carries was read from one of its values. -/
theorem Harvest.exists_ofBytes_of_fileOf {s : Secret} {file : CredentialFile}
    (h : fileOf s = .ok (.ok file)) :
    ∃ bs, CredentialFile.ofBytes (secretWords s.name) bs = .ok file := by
  unfold fileOf at h
  split at h
  · cases h
  split at h
  · cases h
  next bs _ =>
  split at h
  · next read =>
    cases h
    exact ⟨bs, read⟩
  · cases h
  · cases h

namespace Merge

theorem normalized_suffix (registry : Text) : normalized registry <:+ registry :=
  (Text.dropStart_suffix _ _).trans (Text.dropStart_suffix _ _)

/-- The written entry of a credential is one of the schema, and legible. -/
theorem isEntry_of_written? {credential : Credential} {entry : Json}
    (h : credential.written? = some entry) :
    CredentialFile.IsEntry entry ∧ Json.Legible entry := by
  obtain ⟨auth, ha, rfl⟩ := Option.map_eq_some_iff.1 h
  obtain ⟨bs, -, rfl⟩ := Option.map_eq_some_iff.1 ha
  constructor
  · refine ⟨_, rfl, fun key _ value hv => ?_⟩
    rw [Keyed.get?] at hv
    split at hv
    · cases hv
      exact ⟨_, rfl⟩
    · cases hv
  · have joined := Text.isJoined_of_isAscii (Base64.isAscii_encode bs)
    have key : Text.IsJoined "auth" := Text.isJoined_of_isAscii (by decide)
    exact Json.legible_object_iff.2 ⟨by simp, List.forall_mem_singleton.2 key,
      List.forall_mem_singleton.2 (.string joined)⟩

/-- The registries that secrets name are texts that JSON can write. -/
theorem isJoined_of_mem_configs {secrets : List Secret} {harvest : Harvest}
    (h : Harvest.ofSecrets secrets = .ok harvest) {config : Config} (hc : config ∈ harvest.configs)
    {pair : Text × Credential} (hp : pair ∈ config.auths) : pair.1.IsJoined := by
  obtain ⟨yields, each, rfl⟩ := Harvest.ofSecrets_eq_ok_iff.1 h
  obtain ⟨yield, hy, hc⟩ := List.mem_flatMap.1 hc
  obtain ⟨s, -, hs⟩ := Results.exists_left_of_mem each hy
  rcases Harvest.ofSecret_eq_ok_iff.1 hs with ⟨file, hf, rfl⟩ | ⟨reason, -, rfl⟩
  · rw [Harvest.ofFound, List.mem_singleton] at hc
    subst hc
    obtain ⟨entry, he, found⟩ := List.mem_filterMap.1 hp
    obtain ⟨⟨registry, value⟩, hr, rfl⟩ := List.mem_map.1 he
    -- The file was read from a value of the secret.
    obtain ⟨bs, read⟩ := Harvest.exists_ofBytes_of_fileOf hf
    obtain ⟨-, -, legible⟩ := CredentialFile.wellFormed_entries
      (CredentialFile.wellFormed_of_ofBytes read)
    have joined := (Json.legible_object_iff.1 legible).2.1 _ hr
    simp only at found
    split at found
    · cases found
      exact joined
    · cases found
  · cases hc

theorem isJoined_of_mem_qualifying {secrets : List Secret} {harvest : Harvest}
    (h : Harvest.ofSecrets secrets = .ok harvest) {image : Text} {mirrors : List Text}
    {pair : Text × Credential} (hp : pair ∈ qualifying harvest.configs image mirrors) :
    pair.1.IsJoined := by
  obtain ⟨config, hc, hp⟩ := List.mem_flatMap.1 (List.mem_of_mem_filter (Keyed.mem_ofPairs hp))
  obtain ⟨⟨registry, credential⟩, hr, rfl⟩ := List.mem_map.1 hp
  exact (isJoined_of_mem_configs h hc hr).of_suffix (normalized_suffix registry)

/-- Credentials of secrets that are laid over a well-formed file give one again. -/
theorem wellFormed_of_merge {secrets : List Secret} {harvest : Harvest}
    {global merged : CredentialFile} {image : Text} {mirrors : List Text} (hg : global.WellFormed)
    (hh : Harvest.ofSecrets secrets = .ok harvest)
    (h : merge harvest.configs global image mirrors = .ok merged) :
    CredentialFile.WellFormed merged := by
  obtain ⟨-, written, hw, -, rfl⟩ := merge_eq_ok_iff.1 h
  have entry (pair : Text × Json) (hp : pair ∈ written) :
      pair.1.IsJoined ∧ CredentialFile.IsEntry pair.2 ∧ Json.Legible pair.2 := by
    obtain ⟨credential, hq, he⟩ := mem_of_writtenEntries hw hp
    exact ⟨isJoined_of_mem_qualifying hh hq, isEntry_of_written? he⟩
  obtain ⟨-, entries, legible⟩ := CredentialFile.wellFormed_entries hg
  refine ⟨?_, _, get?_entriesKey_overlay global written, fun pair hp => ?_⟩
  · rw [overlay, CredentialFile.withEntries_of_wellFormed hg]
    exact Json.legible_put hg.legible CredentialFile.isJoined_entriesKey
      (Json.legible_putAll legible fun pair hp => ⟨(entry pair hp).1, (entry pair hp).2.2⟩)
  · rcases Keyed.mem_putAll hp with hp | hp
    · exact entries pair hp
    · exact (entry pair hp).2.1

end Merge

/-! ## Members in order -/

namespace CredentialFile

theorem isEntry_sorted {value : Json} (hl : Json.Legible value) (h : IsEntry value) :
    IsEntry value.sorted := by
  obtain ⟨members, rfl, texts⟩ := h
  have nodup := (Json.legible_object_iff.1 hl).1
  refine ⟨_, Json.sorted_object members, fun key hk value hv => ?_⟩
  rw [Json.get?_sorted nodup] at hv
  obtain ⟨old, ho, rfl⟩ := Option.map_eq_some_iff.1 hv
  obtain ⟨t, rfl⟩ := texts key hk old ho
  exact ⟨t, rfl⟩

/-- The members of a file in order, those of their objects as well. -/
def inOrder (file : CredentialFile) : CredentialFile :=
  Keyed.sorted (file.map fun m => (m.1, m.2.sorted))

theorem wellFormed_inOrder {file : CredentialFile} (h : WellFormed file) :
    WellFormed (inOrder file) := by
  obtain ⟨nodup, -, -⟩ := Json.legible_object_iff.1 h.legible
  obtain ⟨there, all, legible⟩ := wellFormed_entries h
  refine ⟨?_, Keyed.sorted ((entries file).map fun m => (m.1, m.2.sorted)), ?_, fun entry he => ?_⟩
  · have sorted := Json.legible_sorted h.legible
    rwa [Json.sorted_object] at sorted
  · rw [inOrder, Json.get?_sorted nodup, there, Option.map_some, Json.sorted_object]
  · obtain ⟨old, ho, rfl⟩ := List.mem_map.1 ((Keyed.sorted_perm _).mem_iff.1 he)
    exact isEntry_sorted ((Json.legible_object_iff.1 legible).2.2 old ho) (all old ho)

/-- Putting the members in order leaves the same document. -/
theorem alike_inOrder {file : CredentialFile} (h : WellFormed file) :
    Json.Alike (.object file) (.object (inOrder file)) := by
  have alike := Json.alike_sorted h.legible
  rwa [Json.sorted_object] at alike

end CredentialFile

end PullAuth
