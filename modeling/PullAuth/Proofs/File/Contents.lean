import PullAuth.Proofs.File.Keeping

/-!
Trees compared by their regular files. A file is looked at by its location (`file?`), with its
permissions and its content. Making a directory leaves every file as it is
(`sameFiles_makeDirectory`), and putting something at a location or taking it away concerns no file
at another one (`sameFilesBut_set`, `sameFilesBut_erase`).
-/
namespace PullAuth.Tree

/-- The regular file at a location: its permissions and its content. -/
def file? (t : Tree) (at_ : Location) : Option (Nat × Bytes) :=
  match t.node? at_ with
  | some (.file mode content) => some (mode, content)
  | _ => none

/-- No directory is lost, and every file is as it was. -/
structure SameFiles (t after : Tree) : Prop extends Keeps t after where
  files : ∀ at_, after.file? at_ = t.file? at_

/-- No directory is lost, and every file is as it was, except for what is at one place. -/
structure SameFilesBut (place : Location) (t after : Tree) : Prop extends Keeps t after where
  files : ∀ other, other ≠ place → after.file? other = t.file? other

/-- The path leads to the place, the file is there now, and every other file is as it was. -/
structure Puts (path : Text) (place : Location) (file : Nat × Bytes) (t after : Tree) : Prop
    extends SameFilesBut place t after where
  located : after.locate path = .ok place
  there : after.file? place = some file

/-- The path leads to a file in a place that was free, and every other file is as it was. -/
def Adds (path : Text) (file : Nat × Bytes) (t after : Tree) : Prop :=
  ∃ place, t.file? place = none ∧ Puts path place file t after

variable {t after : Tree}

theorem file?_eq_some_iff {at_ : Location} {mode : Nat} {content : Bytes} :
    t.file? at_ = some (mode, content) ↔ t.node? at_ = some (.file mode content) := by
  unfold file?
  split
  · next found old e => simp [e]
  · next other =>
    constructor
    · intro h
      cases h
    · intro h
      exact absurd h (other mode content)

theorem file?_congr {at_ other : Location} (h : after.node? at_ = t.node? other) :
    after.file? at_ = t.file? other := by
  rw [file?, file?, h]

theorem file?_of_none {at_ : Location} (h : t.node? at_ = none) : t.file? at_ = none := by
  rw [file?, h]

/-! ## Comparing -/

theorem SameFiles.refl (t : Tree) : SameFiles t t := ⟨.refl t, fun _ => rfl⟩

theorem SameFiles.trans {last : Tree} (h₁ : SameFiles t after) (h₂ : SameFiles after last) :
    SameFiles t last :=
  ⟨h₁.toKeeps.trans h₂.toKeeps, fun at_ => (h₂.files at_).trans (h₁.files at_)⟩

theorem SameFiles.but (h : SameFiles t after) (place : Location) : SameFilesBut place t after :=
  ⟨h.toKeeps, fun other _ => h.files other⟩

theorem SameFilesBut.trans {place : Location} {last : Tree} (h₁ : SameFilesBut place t after)
    (h₂ : SameFilesBut place after last) : SameFilesBut place t last :=
  ⟨h₁.toKeeps.trans h₂.toKeeps,
    fun other ho => (h₂.files other ho).trans (h₁.files other ho)⟩

/-- Nothing is changed if what is at the place is as it was, too. -/
theorem SameFilesBut.same {place : Location} (h : SameFilesBut place t after)
    (hp : after.file? place = t.file? place) : SameFiles t after := by
  refine ⟨h.toKeeps, fun at_ => ?_⟩
  by_cases e : at_ = place
  · rw [e, hp]
  · exact h.files at_ e

theorem Puts.leadsToFiles {path : Text} {place : Location} {file : Nat × Bytes}
    (h : Puts path place file t after) : LeadsToFiles path :=
  leadsToFiles_of_file h.located (file?_eq_some_iff.1 h.there)

/-- What was changed before and left every file as it was makes no difference. -/
theorem Puts.of_sameFiles {path : Text} {place : Location} {file : Nat × Bytes} {last : Tree}
    (same : SameFiles t after) (h : Puts path place file after last) :
    Puts path place file t last :=
  ⟨(same.but place).trans h.toSameFilesBut, h.located, h.there⟩

/-- What leaves every file as it is keeps a file that was put. -/
theorem Puts.keep {path : Text} {place : Location} {file : Nat × Bytes} {last : Tree}
    (h : Puts path place file t after) (same : SameFiles after last) :
    Puts path place file t last :=
  ⟨h.toSameFilesBut.trans (same.but place), same.locate h.leadsToFiles h.located,
    (same.files place).trans h.there⟩

/-- Putting the same file at a path again leaves every file as it is. -/
theorem Puts.again {path : Text} {place other : Location} {file : Nat × Bytes} {last : Tree}
    (h : Puts path place file t after) (h' : Puts path other file after last) :
    SameFiles after last := by
  obtain rfl : place = other :=
    Except.ok.inj ((h'.locate h.leadsToFiles h.located).symm.trans h'.located)
  exact h'.same (h'.there.trans h.there.symm)

/-- The file is found at the path. -/
theorem Puts.stat {path : Text} {place : Location} {mode : Nat} {content : Bytes}
    (h : Puts path place (mode, content) t after) : after.stat path = .ok (.file mode content) :=
  stat_eq_ok_iff.2 ⟨place, h.located, file?_eq_some_iff.1 h.there⟩

theorem Puts.read {path : Text} {place : Location} {mode : Nat} {content : Bytes}
    (h : Puts path place (mode, content) t after) : after.read path = .ok content :=
  read_eq_ok_iff.2 ⟨mode, h.stat⟩

/-! ## Changes -/

theorem sameFilesBut_set {at_ : Location} (node : Node) (h : ¬t.HasDirectory at_) :
    SameFilesBut at_ t (t.set at_ node) :=
  ⟨keeps_set node h, fun _ ho => file?_congr (node?_set_of_ne t node ho)⟩

theorem sameFilesBut_erase {at_ : Location} (h : ¬t.HasDirectory at_) :
    SameFilesBut at_ t (t.erase at_) :=
  ⟨keeps_erase h, fun _ ho => file?_congr (node?_erase_of_ne t ho)⟩

theorem sameFiles_makeDirectory {mode : Nat} {path : Text}
    (h : t.makeDirectory mode path = .ok after) : SameFiles t after := by
  obtain ⟨at_, -, hn, rfl⟩ := makeDirectory_eq_ok_iff.1 h
  have vacant := not_hasDirectory_of_none hn
  refine (sameFilesBut_set _ vacant).same ?_
  rw [file?_of_none hn, file?, node?_set_self t _ (ne_root_of_not_hasDirectory vacant)]

section
variable {path : Text} {place : Location} {file : Nat × Bytes}

/-- A new file is put where nothing was. -/
theorem adds_createFile {mode : Nat} (hp : LeadsToFiles path)
    (h : t.createFile mode path = .ok after) : Adds path (granted mode, []) t after := by
  have keeps := keeps_createFile h
  obtain ⟨place, hl, hn, rfl⟩ := createFile_eq_ok_iff.1 h
  have vacant := not_hasDirectory_of_none hn
  refine ⟨place, file?_of_none hn, sameFilesBut_set _ vacant, keeps.locate hp hl, ?_⟩
  exact file?_eq_some_iff.2 (node?_set_self t _ (ne_root_of_not_hasDirectory vacant))

/-- A file that was put is changed again. -/
theorem Puts.set (h : Puts path place file t after) (mode : Nat) (content : Bytes) :
    Puts path place (mode, content) t (after.set place (.file mode content)) := by
  have occupied := not_hasDirectory_of_file (file?_eq_some_iff.1 h.there)
  have changed := sameFilesBut_set (.file mode content) occupied
  refine ⟨h.toSameFilesBut.trans changed, changed.locate h.leadsToFiles h.located, ?_⟩
  exact file?_eq_some_iff.2 (node?_set_self after _ (ne_root_of_not_hasDirectory occupied))

/-- The operations find a file that was put. -/
theorem Puts.eq_of_locate {at_ : Location} {mode : Nat} {content : Bytes}
    (h : Puts path place file t after) (hl : after.locate path = .ok at_)
    (hn : after.node? at_ = some (.file mode content)) : place = at_ ∧ file = (mode, content) := by
  obtain rfl : place = at_ := Except.ok.inj (h.located.symm.trans hl)
  exact ⟨rfl, Option.some.inj (h.there.symm.trans (file?_eq_some_iff.2 hn))⟩

theorem Adds.writeFile {last : Tree} {content : Bytes} (h : Adds path file t after)
    (hw : after.writeFile path content = .ok last) :
    Adds path (file.1, content.take (after.roomFor content)) t last := by
  obtain ⟨place, vacant, put⟩ := h
  obtain ⟨at_, hl, mode, old, hn, rfl⟩ := writeFile_eq_ok_iff.1 hw
  obtain ⟨rfl, rfl⟩ := put.eq_of_locate hl hn
  exact ⟨place, vacant, put.set _ _⟩

theorem Adds.setMode {last : Tree} {mode : Nat} (h : Adds path file t after)
    (hm : after.setMode path mode = .ok last) : Adds path (mode, file.2) t last := by
  obtain ⟨place, vacant, put⟩ := h
  obtain ⟨-, at_, hl, ⟨old, content, hn, rfl⟩ | ⟨old, hn, -⟩⟩ := setMode_eq_ok_iff.1 hm
  · obtain ⟨rfl, rfl⟩ := put.eq_of_locate hl hn
    exact ⟨place, vacant, put.set _ _⟩
  · obtain rfl : place = at_ := Except.ok.inj (put.located.symm.trans hl)
    rw [file?_eq_some_iff.1 put.there] at hn
    cases hn

/-- An added file is taken away again, and all is as it was. -/
theorem Adds.removeFile {last : Tree} (h : Adds path file t after)
    (hr : after.removeFile path = .ok last) : SameFiles t last := by
  obtain ⟨place, vacant, put⟩ := h
  obtain ⟨at_, hl, mode, content, hn, rfl⟩ := removeFile_eq_ok_iff.1 hr
  obtain ⟨rfl, -⟩ := put.eq_of_locate hl hn
  have occupied := not_hasDirectory_of_file hn
  refine (put.toSameFilesBut.trans (sameFilesBut_erase occupied)).same ?_
  rw [vacant, file?_of_none (node?_erase_self after (ne_root_of_not_hasDirectory occupied))]

/-- Nothing can fail when an added file is taken away. -/
theorem Adds.removeFile_ne_error {fault : PathFault} (h : Adds path file t after) :
    after.removeFile path ≠ .error fault := by
  obtain ⟨place, -, put⟩ := h
  have removed := removeFile_eq_ok_iff.2
    ⟨place, put.located, _, _, file?_eq_some_iff.1 put.there, rfl⟩
  rw [removed]
  exact nofun

/-- An added file is moved, and then it is at the other path and nowhere else. -/
theorem Adds.rename {last : Tree} {target : Text} (h : Adds path file t after)
    (ht : LeadsToFiles target) (hr : after.rename path target = .ok last) :
    ∃ other, Puts target other file t last := by
  have keeps := keeps_rename hr
  obtain ⟨place, vacant, put⟩ := h
  obtain ⟨-, at_, hl, to_, hto, mode, content, hn, free, rfl⟩ := rename_eq_ok_iff.1 hr
  obtain ⟨rfl, rfl⟩ := put.eq_of_locate hl hn
  have ne_root := ne_root_of_not_hasDirectory (not_hasDirectory_of_file hn)
  refine ⟨to_, ⟨⟨put.toKeeps.trans keeps, fun other ho => ?_⟩, keeps.locate ht hto, ?_⟩⟩
  · have moved : ((after.erase place).set to_ (.file mode content)).file? other =
        (after.erase place).file? other := file?_congr (node?_set_of_ne _ _ ho)
    rw [moved]
    by_cases e : other = place
    · rw [e, vacant, file?_of_none (node?_erase_self after ne_root)]
    · rw [file?_congr (node?_erase_of_ne after e), put.files other e]
  · exact file?_eq_some_iff.2 (node?_set_self _ _ (ne_root_of_not_hasDirectory free))

end

end PullAuth.Tree
