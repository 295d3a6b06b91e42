import PullAuth.Proofs.Merge.Overlay

/-!
Which entry a merged file holds under which name. `merge_precedence` describes the whole file: under
a name that applies and that some secret offers stands the entry of the last offer and nothing
else, under any other name what the global file holds there; all other members are those of the
global file, and no name and no member changes its place.
-/
namespace PullAuth.Merge

section
variable {configs : List Config} {global merged : CredentialFile} {image : Text}
  {mirrors : List Text}

/-- An entry of the merged file is the written one, where there is one, or else that of the global
file. -/
theorem get?_entries (h : merge configs global image mirrors = .ok merged) (name : Text) :
    ∃ found : Option Json,
      found.map some =
        (Keyed.get? name (qualifying configs image mirrors)).map Credential.written? ∧
      Keyed.get? name (CredentialFile.entries merged) =
        found.or (Keyed.get? name (CredentialFile.entries global)) := by
  obtain ⟨-, written, hw, -, rfl⟩ := merge_eq_ok_iff.1 h
  refine ⟨Keyed.get? name written, get?_of_writtenEntries hw name, ?_⟩
  rw [entries_overlay, Keyed.get?_putAll,
    Keyed.get?_reverse_of_nodup name (nodup_keys_of_writtenEntries hw)]

theorem get?_entries_of_applies (h : merge configs global image mirrors = .ok merged)
    {name : Text} {credential : Credential} (ha : applies image mirrors name = true)
    (hc : lastOffer? configs name = some credential) :
    ∃ auth, credential.encode? = some auth ∧
      Keyed.get? name (CredentialFile.entries merged) =
        some (.object [("auth", .string auth)]) := by
  obtain ⟨found, hf, e⟩ := get?_entries h name
  rw [get?_qualifying, if_pos ha, hc, Option.map_some, Option.map_eq_some_iff] at hf
  obtain ⟨entry, rfl, hw⟩ := hf
  obtain ⟨auth, hauth, rfl⟩ := Option.map_eq_some_iff.1 hw.symm
  exact ⟨auth, hauth, e⟩

theorem get?_entries_of_not_offered (h : merge configs global image mirrors = .ok merged)
    {name : Text} (hn : lastOffer? configs name = none ∨ applies image mirrors name = false) :
    Keyed.get? name (CredentialFile.entries merged) =
      Keyed.get? name (CredentialFile.entries global) := by
  obtain ⟨found, hf, e⟩ := get?_entries h name
  have nothing : Keyed.get? name (qualifying configs image mirrors) = none := by
    rw [get?_qualifying]
    rcases hn with hn | hn <;> simp [hn]
  rw [nothing, Option.map_none, Option.map_eq_none_iff] at hf
  rw [e, hf, Option.none_or]

/-- The names of the global file keep their places; the new ones that apply follow in the order in
which they first come up. -/
theorem keys_entries (h : merge configs global image mirrors = .ok merged) :
    (CredentialFile.entries merged).map Prod.fst =
      (CredentialFile.entries global).map Prod.fst ++
        ((((configs.flatMap Config.auths).map fun pair => normalized pair.1).filter
          (applies image mirrors)).eraseDups.filter fun name =>
            !Keyed.has name (CredentialFile.entries global)) := by
  obtain ⟨-, written, hw, -, rfl⟩ := merge_eq_ok_iff.1 h
  rw [entries_overlay, Keyed.keys_putAll_of_nodup _ (nodup_keys_of_writtenEntries hw),
    keys_of_writtenEntries hw, keys_qualifying]

end

/-- A merged file in full. Under a name that a mirror or the image starts with stands the last
credential offered for it, alone and in base64; under every other name stands what the global file
holds there. The other members are those of the global file. Members and names of the global file
keep their places, and new names follow in the order in which they first come up among those that
apply. -/
theorem merge_precedence {configs : List Config} {global merged : CredentialFile} {image : Text}
    {mirrors : List Text} (h : merge configs global image mirrors = .ok merged) :
    (∀ name credential,
      ((∃ mirror ∈ mirrors, name <+: mirror) ∨ name <+: image) →
      lastOffer? configs name = some credential →
      ∃ auth, credential.encode? = some auth ∧
        Keyed.get? name (CredentialFile.entries merged) =
          some (.object [("auth", .string auth)])) ∧
    (∀ name,
      (lastOffer? configs name = none ∨
        ¬((∃ mirror ∈ mirrors, name <+: mirror) ∨ name <+: image)) →
      Keyed.get? name (CredentialFile.entries merged) =
        Keyed.get? name (CredentialFile.entries global)) ∧
    Keyed.get? CredentialFile.entriesKey merged =
      some (.object (CredentialFile.entries merged)) ∧
    (∀ key, key ≠ CredentialFile.entriesKey →
      Keyed.get? key merged = Keyed.get? key global) ∧
    merged.map Prod.fst =
      (if Keyed.has CredentialFile.entriesKey global then global.map Prod.fst
        else global.map Prod.fst ++ [CredentialFile.entriesKey]) ∧
    (CredentialFile.entries merged).map Prod.fst =
      (CredentialFile.entries global).map Prod.fst ++
        ((((configs.flatMap Config.auths).map fun pair => normalized pair.1).filter
          (applies image mirrors)).eraseDups.filter fun name =>
            !Keyed.has name (CredentialFile.entries global)) := by
  obtain ⟨-, written, -, -, e⟩ := merge_eq_ok_iff.1 h
  refine ⟨?_, ?_, ?_, ?_, ?_, keys_entries h⟩
  · intro name credential ha hc
    exact get?_entries_of_applies h (applies_iff.2 ha) hc
  · intro name hn
    apply get?_entries_of_not_offered h
    rcases hn with hn | hn
    · exact Or.inl hn
    · exact Or.inr (Bool.eq_false_iff.2 fun ha => hn (applies_iff.1 ha))
  · rw [e, get?_entriesKey_overlay, entries_overlay]
  · intro key hk
    rw [e, get?_overlay_of_ne global written hk]
  · rw [e, keys_overlay]

/-- Two secrets name one registry, with a scheme and without: the later credential is what is left,
and nothing of the entry in the global file. -/
theorem merge_precedence_later_secret :
    merge
        [⟨some "first", [("https://quay.io", ⟨"u", "p"⟩), ("other.io", ⟨"x", "y"⟩)]⟩,
          ⟨some "second", [("quay.io", ⟨"v", "w"⟩)]⟩]
        [("auths", .object [("quay.io", .object [("email", .string "a@b.c")])])]
        "registry.io/app" ["quay.io/mirror"] =
      .ok [("auths", .object [("quay.io", .object [("auth", .string "djp3")])])] ∧
    ∃ auth, Credential.encode? ⟨"v", "w"⟩ = some auth ∧
      Keyed.get? "quay.io" (CredentialFile.entries
        [("auths", .object [("quay.io", .object [("auth", .string "djp3")])])]) =
        some (.object [("auth", .string auth)]) := by
  have merged :
      merge
          [⟨some "first", [("https://quay.io", ⟨"u", "p"⟩), ("other.io", ⟨"x", "y"⟩)]⟩,
            ⟨some "second", [("quay.io", ⟨"v", "w"⟩)]⟩]
          [("auths", .object [("quay.io", .object [("email", .string "a@b.c")])])]
          "registry.io/app" ["quay.io/mirror"] =
        .ok [("auths", .object [("quay.io", .object [("auth", .string "djp3")])])] := rfl
  exact ⟨merged, (merge_precedence merged).1 "quay.io" ⟨"v", "w"⟩ (by decide) rfl⟩

end PullAuth.Merge
