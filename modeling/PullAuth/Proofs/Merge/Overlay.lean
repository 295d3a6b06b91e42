import PullAuth.Merge
import PullAuth.Proofs.Keyed

/-!
What the steps of merging do. The entries that apply are looked up by name (`get?_qualifying`),
writing them out either succeeds for all of them or breaks down (`writtenEntries_eq_ok_iff`,
`writtenEntries_of_unencodable`), and laying them over a file changes its entries and nothing else
(`get?_overlay_of_ne`, `entries_overlay`). `merge_eq_ok_iff` puts the steps together: merging goes
well exactly if every entry that applies can be written and no name stands in the way.
-/
namespace PullAuth

namespace Merge

/-! ## The entries that apply -/

theorem appliesToMirror_iff {name : Text} {mirrors : List Text} :
    appliesToMirror name mirrors = true ↔ ∃ mirror ∈ mirrors, name <+: mirror := by
  simp [appliesToMirror, Text.startsWith_iff]

/-- A name applies if a mirror or the image starts with it. -/
theorem applies_iff {image name : Text} {mirrors : List Text} :
    applies image mirrors name = true ↔
      (∃ mirror ∈ mirrors, name <+: mirror) ∨ name <+: image := by
  rw [applies, Bool.or_eq_true, appliesToMirror_iff, appliesToImage, Text.startsWith_iff]

theorem pairs_eq (configs : List Config) :
    pairs configs =
      (configs.flatMap Config.auths).map fun pair => (normalized pair.1, pair.2) := by
  rw [pairs, List.map_flatMap]

/-- The last credential that secrets offer for a name, in the order of the secrets and of the
entries in each of them. -/
def lastOffer? (configs : List Config) (name : Text) : Option Credential :=
  ((configs.flatMap Config.auths).filter fun pair =>
    normalized pair.1 = name).getLast?.map Prod.snd

theorem lastOffer?_eq (configs : List Config) (name : Text) :
    lastOffer? configs name =
      ((pairs configs).filter fun pair => pair.1 = name).getLast?.map Prod.snd := by
  rw [pairs_eq, List.filter_map, List.getLast?_map, Option.map_map]
  rfl

/-- Under a name that applies stands the last credential that is offered for it, under any other
name nothing. -/
theorem get?_qualifying (configs : List Config) (image : Text) (mirrors : List Text)
    (name : Text) :
    Keyed.get? name (qualifying configs image mirrors) =
      if applies image mirrors name then lastOffer? configs name else none := by
  -- Of the pairs under one name either all apply or none does.
  rw [qualifying, Keyed.get?_ofPairs, List.filter_filter, lastOffer?_eq]
  by_cases ha : applies image mirrors name = true
  · rw [if_pos ha]
    have same : ((pairs configs).filter fun pair =>
        decide (pair.1 = name) && applies image mirrors pair.1) =
        (pairs configs).filter fun pair => decide (pair.1 = name) := by
      apply List.filter_congr
      intro pair _
      by_cases e : pair.1 = name <;> simp [e, ha]
    rw [same]
  · rw [if_neg ha]
    have none_left : ((pairs configs).filter fun pair =>
        decide (pair.1 = name) && applies image mirrors pair.1) = [] := by
      rw [List.filter_eq_nil_iff]
      intro pair _ h
      rw [Bool.and_eq_true, decide_eq_true_eq] at h
      exact ha (h.1 ▸ h.2)
    rw [none_left]
    rfl

/-- The names that apply, in the order in which they first come up. -/
theorem keys_qualifying (configs : List Config) (image : Text) (mirrors : List Text) :
    (qualifying configs image mirrors).map Prod.fst =
      (((configs.flatMap Config.auths).map fun pair => normalized pair.1).filter
        (applies image mirrors)).eraseDups := by
  rw [qualifying, Keyed.keys_ofPairs, pairs_eq, List.filter_map, List.map_map, List.filter_map]
  rfl

theorem nodup_keys_qualifying (configs : List Config) (image : Text) (mirrors : List Text) :
    ((qualifying configs image mirrors).map Prod.fst).Nodup :=
  Keyed.nodup_keys_putAll [] _ List.nodup_nil

/-! ## Writing the entries out -/

theorem writtenEntries_cons (name : Text) (credential : Credential) (rest : Keyed Credential) :
    writtenEntries ((name, credential) :: rest) =
      match credential.written? with
      | some entry => (writtenEntries rest).map ((name, entry) :: ·)
      | none => .error .unencodable := by
  rw [writtenEntries, List.mapM_cons]
  cases h : credential.written? with
  | none =>
    simp only [h]
    rfl
  | some entry =>
    simp only [h]
    change (writtenEntries rest >>= _) = _
    cases writtenEntries rest <;> rfl

/-- The written entries are those of the credentials, all of which have one. -/
theorem writtenEntries_eq_ok_iff {auths : Keyed Credential} {written : Keyed Json} :
    writtenEntries auths = .ok written ↔
      (auths.map fun pair => (pair.1, pair.2.written?)) =
        written.map fun pair => (pair.1, some pair.2) := by
  induction auths generalizing written with
  | nil =>
    cases written with
    | nil => simp [writtenEntries, pure, Except.pure]
    | cons pair rest => simp [writtenEntries, pure, Except.pure]
  | cons pair rest ih =>
    obtain ⟨name, credential⟩ := pair
    rw [writtenEntries_cons]
    cases hc : credential.written? with
    | none => cases written <;> simp [hc]
    | some entry =>
      cases written with
      | nil => cases writtenEntries rest <;> simp [Except.map]
      | cons first more =>
        have step : (writtenEntries rest).map ((name, entry) :: ·) = .ok (first :: more) ↔
            (name, entry) = first ∧ writtenEntries rest = .ok more := by
          cases writtenEntries rest <;> simp [Except.map]
        rw [step, ih, List.map_cons, List.map_cons, List.cons.injEq, hc]
        obtain ⟨k, v⟩ := first
        simp

theorem exists_writtenEntries {auths : Keyed Credential}
    (h : ∀ pair ∈ auths, pair.2.encode?.isSome = true) :
    ∃ written, writtenEntries auths = .ok written := by
  induction auths with
  | nil => exact ⟨[], rfl⟩
  | cons pair rest ih =>
    obtain ⟨name, credential⟩ := pair
    obtain ⟨more, hm⟩ := ih fun p hp => h p (List.mem_cons_of_mem _ hp)
    obtain ⟨auth, ha⟩ := Option.isSome_iff_exists.1 (h _ List.mem_cons_self)
    refine ⟨(name, .object [("auth", .string auth)]) :: more, ?_⟩
    simp [writtenEntries_cons, Credential.written?, ha, hm, Except.map]

/-- One credential that cannot be encoded keeps all from being written out. -/
theorem writtenEntries_of_unencodable {auths : Keyed Credential}
    (h : ∃ pair ∈ auths, pair.2.encode? = none) :
    writtenEntries auths = .error .unencodable := by
  induction auths with
  | nil => simp at h
  | cons pair rest ih =>
    obtain ⟨name, credential⟩ := pair
    rw [writtenEntries_cons]
    cases hc : credential.encode? with
    | none => simp [Credential.written?, hc]
    | some auth =>
      have later : ∃ p ∈ rest, p.2.encode? = none := by
        obtain ⟨p, hp, e⟩ := h
        rcases List.mem_cons.1 hp with rfl | hp
        · rw [hc] at e; cases e
        · exact ⟨p, hp, e⟩
      simp [Credential.written?, hc, ih later, Except.map]

theorem keys_of_writtenEntries {auths : Keyed Credential} {written : Keyed Json}
    (h : writtenEntries auths = .ok written) :
    written.map Prod.fst = auths.map Prod.fst := by
  have e := congrArg (List.map Prod.fst) (writtenEntries_eq_ok_iff.1 h)
  rw [List.map_map, List.map_map] at e
  exact e.symm

theorem nodup_keys_of_writtenEntries {configs : List Config} {image : Text} {mirrors : List Text}
    {written : Keyed Json} (h : writtenEntries (qualifying configs image mirrors) = .ok written) :
    (written.map Prod.fst).Nodup := by
  rw [keys_of_writtenEntries h]
  exact nodup_keys_qualifying configs image mirrors

theorem get?_of_writtenEntries {auths : Keyed Credential} {written : Keyed Json}
    (h : writtenEntries auths = .ok written) (name : Text) :
    (Keyed.get? name written).map some = (Keyed.get? name auths).map Credential.written? := by
  rw [← Keyed.get?_map, ← Keyed.get?_map, writtenEntries_eq_ok_iff.1 h]

theorem mem_of_writtenEntries {auths : Keyed Credential} {written : Keyed Json}
    (h : writtenEntries auths = .ok written) {pair : Text × Json} (hp : pair ∈ written) :
    ∃ credential, (pair.1, credential) ∈ auths ∧ credential.written? = some pair.2 := by
  have there : (pair.1, some pair.2) ∈ auths.map fun a => (a.1, a.2.written?) := by
    rw [writtenEntries_eq_ok_iff.1 h]
    exact List.mem_map_of_mem hp
  obtain ⟨⟨name, credential⟩, ha, e⟩ := List.mem_map.1 there
  obtain ⟨rfl, written⟩ := Prod.mk.inj e
  exact ⟨credential, ha, written⟩

/-! ## Laying entries over a file -/

theorem entries_withEntries (file : CredentialFile) :
    CredentialFile.entries (CredentialFile.withEntries file) = CredentialFile.entries file := by
  unfold CredentialFile.withEntries CredentialFile.entries
  split <;> rename_i h <;> simp [Keyed.get?_put, h, Json.members]

theorem get?_withEntries_of_ne {key : Text} (file : CredentialFile)
    (h : key ≠ CredentialFile.entriesKey) :
    Keyed.get? key (CredentialFile.withEntries file) = Keyed.get? key file := by
  unfold CredentialFile.withEntries
  split <;> simp [Keyed.get?_put, h]

theorem keys_withEntries (file : CredentialFile) :
    (CredentialFile.withEntries file).map Prod.fst =
      if Keyed.has CredentialFile.entriesKey file then file.map Prod.fst
      else file.map Prod.fst ++ [CredentialFile.entriesKey] := by
  unfold CredentialFile.withEntries
  split <;> rename_i h <;> simp [Keyed.keys_put, Keyed.has, h]

theorem get?_entriesKey_overlay (file : CredentialFile) (written : Keyed Json) :
    Keyed.get? CredentialFile.entriesKey (overlay file written) =
      some (.object (Keyed.putAll (CredentialFile.entries file) written)) := by
  simp [overlay, Keyed.get?_put, entries_withEntries]

/-- The entries of the file are kept, and the written ones are put over them. -/
theorem entries_overlay (file : CredentialFile) (written : Keyed Json) :
    CredentialFile.entries (overlay file written) =
      Keyed.putAll (CredentialFile.entries file) written := by
  rw [CredentialFile.entries, get?_entriesKey_overlay]
  rfl

theorem get?_overlay_of_ne {key : Text} (file : CredentialFile) (written : Keyed Json)
    (h : key ≠ CredentialFile.entriesKey) :
    Keyed.get? key (overlay file written) = Keyed.get? key file := by
  rw [overlay, Keyed.get?_put, if_neg h, get?_withEntries_of_ne file h]

theorem keys_overlay (file : CredentialFile) (written : Keyed Json) :
    (overlay file written).map Prod.fst =
      if Keyed.has CredentialFile.entriesKey file then file.map Prod.fst
      else file.map Prod.fst ++ [CredentialFile.entriesKey] := by
  have there : Keyed.has CredentialFile.entriesKey (CredentialFile.withEntries file) = true := by
    rw [Keyed.has_iff_mem, keys_withEntries]
    split
    · next h => exact (Keyed.has_iff_mem _ _).1 h
    · simp
  rw [overlay, Keyed.keys_put, if_pos there, keys_withEntries]

theorem nameBreakdown?_eq_none_iff {name : Text} :
    nameBreakdown? name = none ↔ name ≠ [] ∧ changesInAddress name = false := by
  unfold nameBreakdown?
  cases name with
  | nil => simp
  | cons c rest => by_cases h : changesInAddress (c :: rest) = true <;> simp [h]

theorem overlayBreakdown?_eq_none_iff {file : CredentialFile} {written : Keyed Json} :
    overlayBreakdown? file written = none ↔
      CredentialFile.hasEntriesObject file = true ∧
        ∀ pair ∈ written, nameBreakdown? pair.1 = none := by
  unfold overlayBreakdown?
  by_cases h : CredentialFile.hasEntriesObject file = true
  · simp only [h, if_true, List.findSome?_eq_none_iff, true_and]
  · simp [h]

/-! ## Merging -/

theorem merge_eq (configs : List Config) (global : CredentialFile) (image : Text)
    (mirrors : List Text) :
    merge configs global image mirrors =
      if canCopy global then
        match writtenEntries (qualifying configs image mirrors) with
        | .error cause => .error cause
        | .ok written =>
          match overlayBreakdown? global written with
          | some cause => .error cause
          | none => .ok (overlay global written)
      else .error .tooDeep := by
  rw [merge]
  cases canCopy global <;> cases writtenEntries (qualifying configs image mirrors) <;> rfl

/-- Merging goes well if the file can be copied, the entries that apply can be written and nothing
keeps them from being laid over the file. -/
theorem merge_eq_ok_iff {configs : List Config} {global merged : CredentialFile} {image : Text}
    {mirrors : List Text} :
    merge configs global image mirrors = .ok merged ↔
      canCopy global = true ∧
        ∃ written, writtenEntries (qualifying configs image mirrors) = .ok written ∧
          overlayBreakdown? global written = none ∧ merged = overlay global written := by
  rw [merge_eq]
  cases canCopy global with
  | false => simp
  | true =>
    cases writtenEntries (qualifying configs image mirrors) with
    | error cause => simp
    | ok written => cases h : overlayBreakdown? global written <;> simp [h, eq_comm]

/-- A credential that can be put under a name: it can be encoded, and the name is neither empty nor
one that changes in an address. -/
def Placeable (name : Text) (credential : Credential) : Prop :=
  credential.encode?.isSome = true ∧ name ≠ [] ∧ changesInAddress name = false

instance (name : Text) (credential : Credential) : Decidable (Placeable name credential) :=
  inferInstanceAs (Decidable (_ ∧ _ ∧ _))

/-- Over a file whose entries are an object merging goes well exactly if the file can be copied and
everything that applies can be put under its name. -/
theorem exists_merge_iff {configs : List Config} {global : CredentialFile} {image : Text}
    {mirrors : List Text} (hg : CredentialFile.hasEntriesObject global = true) :
    (∃ merged, merge configs global image mirrors = .ok merged) ↔
      canCopy global = true ∧
        ∀ pair ∈ qualifying configs image mirrors, Placeable pair.1 pair.2 := by
  -- Only written entries are laid over the file, but they have the names of the credentials.
  have names {written : Keyed Json}
      (hw : writtenEntries (qualifying configs image mirrors) = .ok written) (name : Text) :
      (∃ pair ∈ written, pair.1 = name) ↔ ∃ pair ∈ qualifying configs image mirrors,
        pair.1 = name := by
    have keys := keys_of_writtenEntries hw
    rw [← List.mem_map, ← List.mem_map]
    exact iff_of_eq (congrArg (name ∈ ·) keys)
  constructor
  · intro ⟨merged, hm⟩
    obtain ⟨copied, written, hw, ho, -⟩ := merge_eq_ok_iff.1 hm
    refine ⟨copied, fun pair hp => ⟨?_, ?_⟩⟩
    · cases hc : pair.2.encode? with
      | some auth => rfl
      | none =>
        rw [writtenEntries_of_unencodable ⟨pair, hp, hc⟩] at hw
        cases hw
    · obtain ⟨entry, he, e⟩ := (names hw pair.1).2 ⟨pair, hp, rfl⟩
      rw [← e]
      exact nameBreakdown?_eq_none_iff.1 ((overlayBreakdown?_eq_none_iff.1 ho).2 entry he)
  · intro ⟨copied, h⟩
    obtain ⟨written, hw⟩ := exists_writtenEntries fun pair hp => (h pair hp).1
    refine ⟨_, merge_eq_ok_iff.2 ⟨copied, written, hw, ?_, rfl⟩⟩
    refine overlayBreakdown?_eq_none_iff.2 ⟨hg, fun entry he => ?_⟩
    obtain ⟨pair, hp, e⟩ := (names hw entry.1).1 ⟨entry, he, rfl⟩
    rw [← e]
    exact nameBreakdown?_eq_none_iff.2 (h pair hp).2

theorem merge_error_cases {configs : List Config} {global : CredentialFile} {image : Text}
    {mirrors : List Text} (hg : CredentialFile.hasEntriesObject global = true)
    {cause : Breakdown} (h : merge configs global image mirrors = .error cause) :
    (canCopy global = true ∧
        (cause = .unencodable ∨ cause = .emptyRegistryName ∨ cause = .registryNameChanged)) ∨
      canCopy global = false ∧ cause = .tooDeep := by
  rw [merge_eq] at h
  split at h
  case isFalse unable =>
    cases h
    exact .inr ⟨Bool.eq_false_iff.2 unable, rfl⟩
  case isTrue copied =>
  refine .inl ⟨copied, ?_⟩
  cases hw : writtenEntries (qualifying configs image mirrors) with
  | error found =>
    rw [hw] at h
    cases h
    by_cases hc : ∃ pair ∈ qualifying configs image mirrors, pair.2.encode? = none
    · rw [writtenEntries_of_unencodable hc] at hw
      cases hw
      exact .inl rfl
    · -- If all can be encoded, writing them out does not fail.
      obtain ⟨written, ok⟩ := exists_writtenEntries fun pair hp =>
        Option.isSome_iff_ne_none.2 fun hn => hc ⟨pair, hp, hn⟩
      rw [ok] at hw
      cases hw
  | ok written =>
    simp only [hw, overlayBreakdown?, hg, if_true] at h
    split at h
    · next found hf =>
      cases h
      obtain ⟨entry, -, hn⟩ := List.exists_of_findSome?_eq_some hf
      unfold nameBreakdown? at hn
      split at hn
      · cases hn
        exact .inr (.inl rfl)
      · split at hn
        · cases hn
          exact .inr (.inr rfl)
        · cases hn
    · cases h

end Merge

end PullAuth
