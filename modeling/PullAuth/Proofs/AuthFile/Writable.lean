import Mathlib.Algebra.Group.Nat.Defs
import PullAuth.Proofs.AuthFile.Persist
import PullAuth.Proofs.File.Names

/-!
When a file can be written. The numbers that are tried for a temporary name give different names,
and there are more of them than files, so one is not taken (`exists_freshName`). In a directory that
is open to changes every step of writing then goes well (`exists_replaceFile`), and the same holds
if the directory has to be made first (`exists_persist`).
-/
namespace PullAuth.AuthFile

/-! ## Temporary names -/

/-- The bytes of a temporary name. -/
def temporaryBytes (bs : Bytes) (number : Nat) : Bytes :=
  [0x2E] ++ bs ++ [0x2E] ++ Bytes.ofAscii (Text.ofHex 8 number)

theorem temporaryBytes_injective {bs : Bytes} {m n : Nat}
    (h : temporaryBytes bs m = temporaryBytes bs n) : m = n :=
  Text.ofAscii_ofHex_injective (List.append_cancel_left h)

theorem fileName_temporaryName {name : Text} {bs : Bytes} (h : Spelled name bs)
    (short : bs.length ≤ 245) {number : Nat} (hn : number < 16 ^ 8) :
    FileName (temporaryName name number) (temporaryBytes bs number) := by
  have dot : Spelled "." [0x2E] := by
    constructor <;> decide
  have digits := Spelled.of_hexDigits fun c (hc : c ∈ Text.ofHex 8 number) =>
    Text.exists_of_mem_ofHex hc
  have spelled := ((dot.append h).append dot).append digits
  have eight : (Bytes.ofAscii (Text.ofHex 8 number)).length = 8 := by
    rw [Bytes.ofAscii, List.length_map, Text.length_ofHex (by decide) hn]
  have len : (temporaryBytes bs number).length = bs.length + 10 := by
    simp only [temporaryBytes, List.length_append, List.length_singleton, eight]
    omega
  exact ⟨spelled, by omega, by omega⟩

/-- Of more places than there are files one is free. -/
theorem exists_free_place (t : Tree) (place : Nat → Location) (hne : ∀ n, place n ≠ [])
    (inj : ∀ m n, place m = place n → m = n) :
    ∃ n < t.nodes.length + 1, t.node? (place n) = none := by
  apply Classical.byContradiction
  intro taken
  -- The places would be different ones, all of them places of files, and one more than those.
  let places := (List.range (t.nodes.length + 1)).map place
  have distinct : places.Nodup := by
    rw [List.Nodup, List.pairwise_map]
    exact List.Pairwise.imp (fun hmn e => hmn (inj _ _ e)) List.nodup_range
  have inside : places ⊆ t.nodes.map Prod.fst := by
    intro at_ h
    obtain ⟨n, hn, rfl⟩ := List.mem_map.1 h
    apply Classical.byContradiction
    intro outside
    refine taken ⟨n, List.mem_range.1 hn, ?_⟩
    rw [Tree.node?, if_neg (by rw [List.isEmpty_iff]; exact hne n), List.lookup_eq_none_iff]
    intro entry he
    rw [bne_iff_ne]
    intro e
    exact outside (e ▸ List.mem_map_of_mem he)
  have := distinct.length_le_of_subset inside
  simp only [places, List.length_map, List.length_range] at this
  omega

/-- If one of the numbers that are tried is free, a free one is found. -/
theorem freshName_eq_temporaryName {t : Tree} {d : Path} {name : Text}
    (h : ∃ n < t.nodes.length + 1,
      ∀ node, t.stat (d.child (temporaryName name n)).toText ≠ .ok node) :
    ∃ n < t.nodes.length + 1, freshName t d name = temporaryName name n ∧
      ∀ node, t.stat (d.child (temporaryName name n)).toText ≠ .ok node := by
  obtain ⟨free, chosen, free_iff⟩ : ∃ free : Nat → Bool,
      freshName t d name =
        temporaryName name (((List.range (t.nodes.length + 1)).find? free).getD 0) ∧
      ∀ number, free number = true ↔
        ∀ node, t.stat (d.child (temporaryName name number)).toText ≠ .ok node := by
    refine ⟨_, rfl, fun number => ?_⟩
    cases t.stat (d.child (temporaryName name number)).toText <;> simp
  obtain ⟨n, hn, hfree⟩ := h
  have some_free : ((List.range (t.nodes.length + 1)).find? free).isSome = true :=
    List.find?_isSome.2 ⟨n, List.mem_range.2 hn, (free_iff n).2 hfree⟩
  obtain ⟨number, found⟩ := Option.isSome_iff_exists.1 some_free
  refine ⟨number, List.mem_range.1 (List.mem_of_find?_eq_some found), ?_,
    (free_iff number).1 (List.find?_some found)⟩
  rw [chosen, found]
  rfl

/-- One of the temporary names is not taken. -/
theorem exists_freshName {t : Tree} {d : Path} {at_ : Location}
    (hp : Tree.PathToDirectory t d at_) (few : t.nodes.length < 16 ^ 8) {name : Text} {bs : Bytes}
    (h : Spelled name bs) (short : bs.length ≤ 245) :
    ∃ bs', FileName (freshName t d name) bs' ∧ t.node? (at_ ++ [bs']) = none := by
  have stat {number : Nat} (hn : number < t.nodes.length + 1) (node : Node) :
      t.stat (d.child (temporaryName name number)).toText = .ok node ↔
        t.node? (at_ ++ [temporaryBytes bs number]) = some node :=
    Tree.stat_child_eq_ok_iff hp (fileName_temporaryName h short (by omega))
  obtain ⟨n, hn, hfree⟩ := exists_free_place t (fun number => at_ ++ [temporaryBytes bs number])
    (fun n => by simp)
    fun m n e => temporaryBytes_injective (List.singleton_inj.1 (List.append_cancel_left e))
  have not_there : ∀ node, t.stat (d.child (temporaryName name n)).toText ≠ .ok node := by
    intro node there
    rw [stat hn, hfree] at there
    cases there
  obtain ⟨number, tried, chosen, vacant⟩ := freshName_eq_temporaryName ⟨n, hn, not_there⟩
  refine ⟨temporaryBytes bs number, ?_, ?_⟩
  · rw [chosen]
    exact fileName_temporaryName h short (by omega)
  · rw [Option.eq_none_iff_forall_ne_some]
    intro node there
    exact vacant node ((stat tried node).2 there)

/-! ## Going through with it -/

/-- A tree in which a file can be written in a directory: the system sets no limits, there are fewer
files than temporary names, and no directory is in the place of the file. -/
structure Open (t : Tree) (d : Path) (name : Text) : Prop where
  limits : t.limits = {}
  few : t.nodes.length < 16 ^ 8
  free : ∀ mode, t.stat (d.child name).toText ≠ .ok (.directory mode)

/-- Nothing fails when a file is written in a directory that is open to changes. -/
theorem exists_replaceFile {t : Tree} {d : Path} {at_ : Location}
    (hp : Tree.PathToDirectory t d at_) {name : Text} {bs : Bytes} (hn : FileName name bs)
    (short : bs.length ≤ 245) (ho : Open t d name) (content : Bytes) :
    ∃ after, replaceFile (d.child name) content t = (.ok (), after) := by
  obtain ⟨bs', hfresh, hfree⟩ := exists_freshName hp ho.few hn.toSpelled short
  have temporary : temporaryPath t (d.child name) = (d.child (freshName t d name)).toText := by
    rw [temporaryPath, Path.parent_child, Path.name_child]
  have ne_root : at_ ++ [bs'] ≠ [] := by simp
  -- The temporary file is made, and then it changes twice; no directory is lost on the way.
  let created := t.set (at_ ++ [bs']) (.file (Tree.granted fileMode) [])
  let filled := created.set (at_ ++ [bs']) (.file (Tree.granted fileMode) content)
  let closed := filled.set (at_ ++ [bs']) (.file fileMode content)
  have hc : t.createFile fileMode (temporaryPath t (d.child name)) = .ok created := by
    rw [temporary]
    exact Tree.createFile_eq_ok_iff.2 ⟨_, Tree.locate_child hp hfresh, hfree, rfl⟩
  have hp₁ := hp.of_keeps (Tree.keeps_createFile hc)
  have room : created.roomFor content = content.length := by
    show t.limits.room.getD content.length = _
    rw [ho.limits]
    rfl
  have hw : created.writeFile (temporaryPath t (d.child name)) content = .ok filled := by
    rw [temporary]
    refine Tree.writeFile_eq_ok_iff.2 ⟨_, Tree.locate_child hp₁ hfresh, _, _,
      Tree.node?_set_self t _ ne_root, ?_⟩
    rw [room, List.take_length]
  have hp₂ := hp₁.of_keeps (Tree.keeps_writeFile hw)
  have hm : filled.setMode (temporaryPath t (d.child name)) fileMode = .ok closed := by
    have permitted : filled.limits.permissions = true := by
      show t.limits.permissions = true
      rw [ho.limits]
    rw [temporary]
    exact Tree.setMode_eq_ok_iff.2 ⟨permitted, _, Tree.locate_child hp₂ hfresh,
      .inl ⟨_, _, Tree.node?_set_self created _ ne_root, rfl⟩⟩
  have hp₃ := hp₂.of_keeps (Tree.keeps_setMode hm)
  -- None of the files takes the place of a directory, so the target is as free as before.
  have target : ¬closed.HasDirectory (at_ ++ [bs]) := by
    apply Tree.not_hasDirectory_set_file
    apply Tree.not_hasDirectory_set_file
    apply Tree.not_hasDirectory_set_file
    rintro ⟨mode, h⟩
    exact ho.free mode ((Tree.stat_child_eq_ok_iff hp hn).2 h)
  have hr : closed.rename (temporaryPath t (d.child name)) (d.child name).toText =
      .ok ((closed.erase (at_ ++ [bs'])).set (at_ ++ [bs]) (.file fileMode content)) := by
    have movable : closed.limits.moves = true := by
      show t.limits.moves = true
      rw [ho.limits]
    rw [temporary]
    exact Tree.rename_eq_ok_iff.2 ⟨movable, _, Tree.locate_child hp₃ hfresh, _,
      Tree.locate_child hp₃ hn, _, _, Tree.node?_set_self filled _ ne_root, target, rfl⟩
  exact ⟨_, replaceFile_eq_ok_iff.2 ⟨created, filled, closed, hc,
    fill_eq_ok_iff.2 ⟨Nat.le_of_eq room.symm, hw⟩, hm, hr⟩⟩

/-! ## Making the directory -/

theorem exists_of_ensureDirectory {mode : Nat} {path : Text} {t after : Tree}
    (h : ensureDirectory mode path t = (.ok (), after)) :
    ∃ at_, after.locate path = .ok at_ ∧ after.HasDirectory at_ := by
  unfold ensureDirectory at h
  split at h
  · next made hm =>
    cases h
    have keeps := Tree.keeps_makeDirectory hm
    obtain ⟨at_, hl, hno, rfl⟩ := Tree.makeDirectory_eq_ok_iff.1 hm
    have ne_root := Tree.ne_root_of_not_hasDirectory (Tree.not_hasDirectory_of_none hno)
    have there : (t.set at_ (.directory (Tree.granted mode))).HasDirectory at_ :=
      ⟨_, Tree.node?_set_self t _ ne_root⟩
    exact ⟨at_, keeps.locate_of_directory hl there, there⟩
  · cases h
  · split at h
    · next found hs =>
      cases h
      obtain ⟨at_, hl, hd⟩ := Tree.stat_eq_ok_iff.1 hs
      exact ⟨at_, hl, found, hd⟩
    · cases h
  · cases h

/-- The last directory is made after those around it, if they are missing. -/
theorem exists_of_ensureDirectories {root : Text} {mode : Nat} {names : List Text}
    {t after : Tree} (h : ensureDirectories root mode names t = (.ok (), after)) :
    ∃ at_, after.locate (Path.toText ⟨root, names.reverse⟩) = .ok at_ ∧
      after.HasDirectory at_ := by
  cases names with
  | nil => exact exists_of_ensureDirectory h
  | cons name outer =>
    unfold ensureDirectories at h
    simp only at h
    split at h
    · split at h
      · exact exists_of_ensureDirectory h
      · cases h
    · exact exists_of_ensureDirectory h

/-- A tree in which a file can be written in a directory that is there or can be made. -/
structure Writable (t : Tree) (d : Path) (name : Text) : Prop where
  short : ∃ outer, Utf8.encodeKept? d.toText = some outer ∧ outer.length + 256 < 4096
  made : ∃ ready, ensureDirectories d.root directoryMode d.names.reverse t = (.ok (), ready) ∧
    Open ready d name

/-- Nothing fails when a file is written, whatever its content is. -/
theorem exists_persist {t : Tree} {d : Path} (root : d.root = "/" ∨ d.root = "//") {name : Text}
    {bs : Bytes} (hn : FileName name bs) (short : bs.length ≤ 245) (hw : Writable t d name)
    (content : Bytes) : ∃ after, persist (d.child name) content t = (.ok (), after) := by
  obtain ⟨ready, made, ho⟩ := hw.made
  obtain ⟨at_, located, directory⟩ := exists_of_ensureDirectories made
  rw [List.reverse_reverse] at located
  obtain ⟨after, replaced⟩ :=
    exists_replaceFile ⟨root, hw.short, located, directory⟩ hn short ho content
  refine ⟨after, persist_eq_ok_iff.2 ⟨ready, ?_, replaced⟩⟩
  rw [Path.parent_child]
  exact made

end PullAuth.AuthFile
