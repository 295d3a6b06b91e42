import PullAuth.Proofs.Json.Depth
import PullAuth.Proofs.Merge.Overlay

/-!
Merging step by step. What applies of several secrets is what applies of the first ones with what
applies of the others put into it (`qualifying_append`), it is written out in the same way
(`writtenEntries_putAll`), and laying entries over a file twice is laying them over it together
(`overlay_overlay`). What was merged can be copied again (`canCopy_of_merge`). So the secrets can be
merged all at once or a part of them after the other (`merge_stepwise`), and merging the same ones
again changes nothing.
-/
namespace PullAuth.Merge

/-! ## The entries that apply -/

theorem pairs_append (first second : List Config) :
    pairs (first ++ second) = pairs first ++ pairs second :=
  List.flatMap_append

/-- A later entry replaces an earlier one also where they come from different parts. -/
theorem qualifying_append (first second : List Config) (image : Text) (mirrors : List Text) :
    qualifying (first ++ second) image mirrors =
      Keyed.putAll (qualifying first image mirrors) (qualifying second image mirrors) := by
  rw [qualifying, pairs_append, List.filter_append, Keyed.ofPairs, Keyed.putAll_append]
  exact (Keyed.putAll_putAll (m := []) _ _ List.nodup_nil).symm

/-! ## Writing the entries out -/

/-- Where the first entries can be written, all of them can if the others can. -/
theorem writtenEntries_putAll {first second : Keyed Credential} {written : Keyed Json}
    (h : writtenEntries first = .ok written) (hs : (second.map Prod.fst).Nodup) :
    writtenEntries (Keyed.putAll first second) =
      (writtenEntries second).map (Keyed.putAll written) := by
  by_cases hc : ∃ pair ∈ second, pair.2.encode? = none
  · -- The entry that cannot be encoded is not replaced, since no other has its name.
    obtain ⟨pair, hp, unencodable⟩ := hc
    have kept : Keyed.get? pair.1 (Keyed.putAll first second) = some pair.2 := by
      rw [Keyed.get?_putAll, Keyed.get?_reverse_of_nodup _ hs, (Keyed.get?_eq_some_iff hs).2 hp]
      rfl
    rw [writtenEntries_of_unencodable ⟨pair, Keyed.mem_of_get? kept, unencodable⟩,
      writtenEntries_of_unencodable ⟨pair, hp, unencodable⟩]
    rfl
  · obtain ⟨more, hm⟩ := exists_writtenEntries fun pair hp =>
      Option.isSome_iff_ne_none.2 fun hn => hc ⟨pair, hp, hn⟩
    rw [hm]
    refine writtenEntries_eq_ok_iff.2 ?_
    rw [Keyed.map_putAll, writtenEntries_eq_ok_iff.1 h, writtenEntries_eq_ok_iff.1 hm,
      ← Keyed.map_putAll]

/-! ## Laying entries over a file -/

theorem withEntries_overlay (file : CredentialFile) (written : Keyed Json) :
    CredentialFile.withEntries (overlay file written) = overlay file written := by
  rw [CredentialFile.withEntries, get?_entriesKey_overlay]

theorem hasEntriesObject_overlay (file : CredentialFile) (written : Keyed Json) :
    CredentialFile.hasEntriesObject (overlay file written) = true := by
  rw [CredentialFile.hasEntriesObject, withEntries_overlay, get?_entriesKey_overlay]
  rfl

theorem overlay_overlay (file : CredentialFile) {written : Keyed Json} (more : Keyed Json)
    (h : (written.map Prod.fst).Nodup) :
    overlay (overlay file written) more = overlay file (Keyed.putAll written more) := by
  calc overlay (overlay file written) more
      = Keyed.put CredentialFile.entriesKey
          (.object (Keyed.putAll (Keyed.putAll (CredentialFile.entries file) written) more))
          (overlay file written) := by
        rw [overlay, withEntries_overlay, entries_overlay]
    _ = Keyed.put CredentialFile.entriesKey
          (.object (Keyed.putAll (CredentialFile.entries file) (Keyed.putAll written more)))
          (overlay file written) := by
        rw [Keyed.putAll_putAll _ more h]
    _ = Keyed.put CredentialFile.entriesKey
          (.object (Keyed.putAll (CredentialFile.entries file) (Keyed.putAll written more)))
          (CredentialFile.withEntries file) := Keyed.put_put _ _ _ _
    _ = overlay file (Keyed.putAll written more) := by
        rw [overlay, entries_withEntries]

theorem findSome?_filter_of_none {α β : Type} {f : α → Option β} {p : α → Bool} {l : List α}
    (h : ∀ a ∈ l, p a = false → f a = none) : (l.filter p).findSome? f = l.findSome? f := by
  induction l with
  | nil => rfl
  | cons a l ih =>
    obtain ⟨ha, hl⟩ := List.forall_mem_cons.1 h
    cases hp : p a with
    | false => rw [List.filter_cons_of_neg (by simp [hp]), ih hl, List.findSome?_cons, ha hp]
    | true => rw [List.filter_cons_of_pos hp, List.findSome?_cons, List.findSome?_cons, ih hl]

theorem overlayBreakdown?_eq (file : CredentialFile) (written : Keyed Json) :
    overlayBreakdown? file written =
      if CredentialFile.hasEntriesObject file then
        (written.map Prod.fst).findSome? nameBreakdown?
      else some .entriesNotObject := by
  rw [overlayBreakdown?, List.findSome?_map]
  rfl

/-- Once entries are laid over a file, more of them break down as all together would. -/
theorem overlayBreakdown?_putAll {file : CredentialFile} {written more : Keyed Json}
    (h : overlayBreakdown? file written = none) (hm : (more.map Prod.fst).Nodup) :
    overlayBreakdown? file (Keyed.putAll written more) =
      overlayBreakdown? (overlay file written) more := by
  obtain ⟨object, names⟩ := overlayBreakdown?_eq_none_iff.1 h
  have first : (written.map Prod.fst).findSome? nameBreakdown? = none := by
    rw [List.findSome?_eq_none_iff]
    intro name hn
    obtain ⟨pair, hp, rfl⟩ := List.mem_map.1 hn
    exact names pair hp
  rw [overlayBreakdown?_eq, if_pos object, overlayBreakdown?_eq,
    if_pos (hasEntriesObject_overlay file written), Keyed.keys_putAll_of_nodup _ hm,
    List.findSome?_append, first, Option.none_or]
  -- A name that is left out is one of the first ones, which do not break down.
  refine findSome?_filter_of_none fun name _ there => ?_
  rw [Bool.not_eq_false', Keyed.has_iff_mem] at there
  exact List.findSome?_eq_none_iff.1 first name there

/-! ## Levels -/

theorem levels_of_writtenEntries {auths : Keyed Credential} {written : Keyed Json}
    (h : writtenEntries auths = .ok written) : ∀ pair ∈ written, pair.2.levels = 1 := by
  intro pair hp
  obtain ⟨credential, -, hw⟩ := mem_of_writtenEntries h hp
  obtain ⟨auth, -, e⟩ := Option.map_eq_some_iff.1 hw
  rw [← e]
  rfl

theorem levels_withEntries_le {file : CredentialFile} {n : Nat}
    (h : (Json.object file).levels ≤ n + 2) :
    (Json.object (CredentialFile.withEntries file)).levels ≤ n + 2 := by
  have none_inside : (Json.object []).levels ≤ n + 1 := Nat.le_add_left 1 n
  have put := Json.levels_put_le h CredentialFile.entriesKey none_inside
  unfold CredentialFile.withEntries
  split
  · exact put
  · exact put
  · exact h

theorem levels_entries_le {file : CredentialFile} {n : Nat}
    (h : (Json.object file).levels ≤ n + 2) :
    (Json.object (CredentialFile.entries file)).levels ≤ n + 1 := by
  unfold CredentialFile.entries
  cases hv : Keyed.get? CredentialFile.entriesKey file with
  | none => exact Nat.le_add_left 1 n
  | some value =>
    have inner := Json.levels_lt_of_mem (Keyed.mem_of_get? hv)
    cases value with
    | object members => exact Nat.le_of_lt_succ (Nat.lt_of_lt_of_le inner h)
    | _ => exact Nat.le_add_left 1 n

/-- The entries that are laid over a file add levels only where it has fewer than three. -/
theorem levels_overlay_le {file : CredentialFile} {written : Keyed Json} {n : Nat}
    (h : (Json.object file).levels ≤ n + 3) (hw : ∀ pair ∈ written, pair.2.levels = 1) :
    (Json.object (overlay file written)).levels ≤ n + 3 := by
  have kept := levels_withEntries_le h
  have entries := Json.levels_putAll_le (levels_entries_le kept) fun pair hp =>
    (hw pair hp).trans_le (Nat.le_add_left 1 n)
  exact Json.levels_put_le kept _ entries

theorem canCopy_iff {file : CredentialFile} :
    canCopy file = true ↔ (Json.object file).levels ≤ copyLimit := decide_eq_true_iff

theorem copyLimit_le : copyLimit ≤ Json.levelLimit := Nat.div_le_self _ _

/-- What was merged into a file can be copied again. -/
theorem canCopy_overlay {file : CredentialFile} {written : Keyed Json}
    (h : canCopy file = true) (hw : ∀ pair ∈ written, pair.2.levels = 1) :
    canCopy (overlay file written) = true := by
  obtain ⟨n, room⟩ : ∃ n, copyLimit = n + 3 := ⟨copyLimit - 3, by decide⟩
  rw [canCopy_iff, room] at h ⊢
  exact levels_overlay_le h hw

/-- A file that was merged can be copied again. -/
theorem canCopy_of_merge {configs : List Config} {global merged : CredentialFile} {image : Text}
    {mirrors : List Text} (h : merge configs global image mirrors = .ok merged) :
    canCopy merged = true := by
  obtain ⟨copied, written, hw, -, rfl⟩ := merge_eq_ok_iff.1 h
  exact canCopy_overlay copied (levels_of_writtenEntries hw)

/-! ## Merging -/

/-- Merging in steps is merging at once. After the first secrets were merged into a file, merging
more of them comes to the same, failures and the order of all members included, as merging all of
them into the file; and merging the first ones again changes nothing. -/
theorem merge_stepwise {first : List Config} {global between : CredentialFile} {image : Text}
    {mirrors : List Text} (h : merge first global image mirrors = .ok between) :
    (∀ second, merge (first ++ second) global image mirrors =
      merge second between image mirrors) ∧
    merge first between image mirrors = .ok between := by
  obtain ⟨copied, written, hw, ho, rfl⟩ := merge_eq_ok_iff.1 h
  have names := nodup_keys_of_writtenEntries hw
  have copied' := canCopy_of_merge h
  constructor
  · intro second
    rw [merge_eq, merge_eq, if_pos copied, if_pos copied', qualifying_append,
      writtenEntries_putAll hw (nodup_keys_qualifying second image mirrors)]
    cases hm : writtenEntries (qualifying second image mirrors) with
    | error cause => rfl
    | ok more =>
      simp only [Except.map]
      rw [overlayBreakdown?_putAll ho (nodup_keys_of_writtenEntries hm),
        overlay_overlay global more names]
  · refine merge_eq_ok_iff.2 ⟨copied', written, hw, ?_, ?_⟩
    · rw [← overlayBreakdown?_putAll ho names, Keyed.putAll_self names]
      exact ho
    · rw [overlay_overlay global written names, Keyed.putAll_self names]

def firstConfigs : List Config :=
  [⟨some "first", [("https://quay.io", ⟨"u", "p"⟩), ("docker.io", ⟨"x", "y"⟩)]⟩]

def secondConfigs : List Config :=
  [⟨some "second", [("other.io", ⟨"o", "o"⟩), ("http://quay.io", ⟨"v", "w"⟩)]⟩]

/-- A file with a member of its own and these credentials for `quay.io` and `docker.io`. -/
def mergedFile (quay docker : Text) : CredentialFile :=
  [("auths", .object [("quay.io", .object [("auth", .string quay)]),
    ("docker.io", .object [("auth", .string docker)])]), ("credsStore", .string "s")]

/-- Two names that are the same without their schemes, over a file whose entries are null: the
later secret replaces the entry of the earlier one in its place. -/
theorem merge_stepwise_same_name :
    merge firstConfigs [("auths", .null), ("credsStore", .string "s")] "docker.io/app"
        ["quay.io/m"] = .ok (mergedFile "dTpw" "eDp5") ∧
    merge (firstConfigs ++ secondConfigs) [("auths", .null), ("credsStore", .string "s")]
        "docker.io/app" ["quay.io/m"] = .ok (mergedFile "djp3" "eDp5") ∧
    merge firstConfigs (mergedFile "dTpw" "eDp5") "docker.io/app" ["quay.io/m"] =
      .ok (mergedFile "dTpw" "eDp5") := by
  have once : merge firstConfigs [("auths", .null), ("credsStore", .string "s")] "docker.io/app"
      ["quay.io/m"] = .ok (mergedFile "dTpw" "eDp5") := rfl
  obtain ⟨more, again⟩ := merge_stepwise once
  exact ⟨once, (more secondConfigs).trans rfl, again⟩

end PullAuth.Merge
