import PullAuth.File.Tree
import PullAuth.Proofs.Runs

/-!
What the operations on a file tree do, each in one statement (`createFile_eq_ok_iff` and its like):
the location that a path leads to, what has to be there, and the tree that comes out. A location
stays where it is as long as no directory is lost (`Keeps.locate`), and none of the operations on
files loses one.
-/
namespace PullAuth.Tree

/-! ## Following paths -/

/-- Whether there is a directory at a location. -/
def HasDirectory (t : Tree) (at_ : Location) : Prop := ∃ mode, t.node? at_ = some (.directory mode)

theorem hasDirectory_root (t : Tree) : t.HasDirectory [] := ⟨0o755, rfl⟩

/-- A step is taken from a directory, under a name that is not too long. -/
theorem step_eq_ok_iff {t : Tree} {at_ next : Location} {name : Bytes} :
    t.step at_ name = .ok next ↔ t.HasDirectory at_ ∧
      ((name = [0x2E] ∧ next = at_) ∨
        (name = [0x2E, 0x2E] ∧ next = at_.dropLast) ∨
        (name ≠ [0x2E] ∧ name ≠ [0x2E, 0x2E] ∧ name.length ≤ 255 ∧ next = at_ ++ [name])) := by
  unfold step HasDirectory
  cases hn : t.node? at_ with
  | none => simp
  | some node =>
    cases node with
    | file mode content => simp
    | directory mode =>
      by_cases h₁ : name = [0x2E]
      · simp [h₁, eq_comm]
      · by_cases h₂ : name = [0x2E, 0x2E]
        · simp [h₂, eq_comm]
        · by_cases h₃ : 255 < name.length
          · have : ¬name.length ≤ 255 := by omega
            simp [h₁, h₂, h₃, this]
          · have : name.length ≤ 255 := by omega
            simp [h₁, h₂, h₃, this, eq_comm]

/-- A path leads where its steps lead, unless it asks for a directory where a file is. -/
theorem locate_eq_ok_iff {t : Tree} {path : Text} {at_ : Location} :
    t.locate path = .ok at_ ↔ ∃ r, route path = .ok r ∧
      r.names.foldlM t.step (if r.absolute then [] else t.here) = .ok at_ ∧
      (r.toDirectory = true → ∀ mode content, t.node? at_ ≠ some (.file mode content)) := by
  rw [locate, Results.bind_eq_ok_iff]
  constructor
  · intro ⟨r, hr, h⟩
    refine ⟨r, hr, ?_⟩
    cases hw : r.names.foldlM t.step (if r.absolute then [] else t.here) with
    | error e => simp [hw] at h
    | ok found =>
      simp only [hw] at h
      split at h
      · cases h
      · next other =>
        cases h
        exact ⟨rfl, fun hd mode content hn => other mode content hd hn⟩
  · intro ⟨r, hr, hw, hd⟩
    refine ⟨r, hr, ?_⟩
    simp only [hw]
    split
    · next mode content htrue hfile => exact absurd hfile (hd htrue mode content)
    · rfl

theorem stat_eq_ok_iff {t : Tree} {path : Text} {node : Node} :
    t.stat path = .ok node ↔ ∃ at_, t.locate path = .ok at_ ∧ t.node? at_ = some node := by
  rw [stat, Results.bind_eq_ok_iff]
  constructor
  · intro ⟨at_, hl, h⟩
    refine ⟨at_, hl, ?_⟩
    cases hn : t.node? at_ with
    | none => simp [hn] at h
    | some found => simpa [hn] using h
  · intro ⟨at_, hl, hn⟩
    exact ⟨at_, hl, by simp [hn]⟩

theorem read_eq_ok_iff {t : Tree} {path : Text} {content : Bytes} :
    t.read path = .ok content ↔ ∃ mode, t.stat path = .ok (.file mode content) := by
  rw [read, Results.bind_eq_ok_iff]
  constructor
  · intro ⟨node, hs, h⟩
    cases node with
    | directory mode => cases h
    | file mode found =>
      cases h
      exact ⟨mode, hs⟩
  · intro ⟨mode, hs⟩
    exact ⟨_, hs, rfl⟩

/-- It is known what a path leads to, if it leads anywhere. -/
theorem find?_eq_some_iff {t : Tree} {path : Text} {node : Node} :
    t.find? path = .ok (some node) ↔ t.stat path = .ok node := by
  unfold find?
  cases t.stat path with
  | ok found => simp
  | error fault => cases h : PathFault.isAbsence fault <;> simp [h]

theorem find?_eq_error_iff {t : Tree} {path : Text} {fault : PathFault} :
    t.find? path = .error fault ↔
      t.stat path = .error fault ∧ PathFault.isAbsence fault = false := by
  unfold find?
  cases t.stat path with
  | ok found => simp
  | error other =>
    by_cases absent : PathFault.isAbsence other = true
    · simp only [absent, if_true, reduceCtorEq, false_iff, not_and]
      intro e
      cases e
      simp [absent]
    · simp only [absent, Bool.false_eq_true, if_false, Except.error.injEq]
      refine (and_iff_left_of_imp ?_).symm
      rintro rfl
      simpa using absent

/-! ## Changes -/

theorem makeDirectory_eq_ok_iff {t after : Tree} {mode : Nat} {path : Text} :
    t.makeDirectory mode path = .ok after ↔ ∃ at_, t.locate path = .ok at_ ∧
      t.node? at_ = none ∧ after = t.set at_ (.directory (granted mode)) := by
  rw [makeDirectory, Results.bind_eq_ok_iff]
  refine exists_congr fun at_ => and_congr_right fun _ => ?_
  cases t.node? at_ <;> simp [eq_comm]

theorem createFile_eq_ok_iff {t after : Tree} {mode : Nat} {path : Text} :
    t.createFile mode path = .ok after ↔ ∃ at_, t.locate path = .ok at_ ∧
      t.node? at_ = none ∧ after = t.set at_ (.file (granted mode) []) := by
  rw [createFile, Results.bind_eq_ok_iff]
  refine exists_congr fun at_ => and_congr_right fun _ => ?_
  cases t.node? at_ <;> simp [eq_comm]

theorem writeFile_eq_ok_iff {t after : Tree} {path : Text} {content : Bytes} :
    t.writeFile path content = .ok after ↔ ∃ at_, t.locate path = .ok at_ ∧
      ∃ mode old, t.node? at_ = some (.file mode old) ∧
        after = t.set at_ (.file mode (content.take (t.roomFor content))) := by
  rw [writeFile, Results.bind_eq_ok_iff]
  refine exists_congr fun at_ => and_congr_right fun _ => ?_
  cases t.node? at_ with
  | none => simp
  | some node => cases node <;> simp [eq_comm]

theorem setMode_eq_ok_iff {t after : Tree} {path : Text} {mode : Nat} :
    t.setMode path mode = .ok after ↔ t.limits.permissions = true ∧
      ∃ at_, t.locate path = .ok at_ ∧
        ((∃ old content, t.node? at_ = some (.file old content) ∧
            after = t.set at_ (.file mode content)) ∨
          ∃ old, t.node? at_ = some (.directory old) ∧ after = t.set at_ (.directory mode)) := by
  rw [setMode, Results.bind_eq_ok_iff, ← exists_and_left]
  refine exists_congr fun at_ => ?_
  rw [and_left_comm]
  refine and_congr_right fun _ => ?_
  cases t.node? at_ with
  | none => simp
  | some node => cases node <;> cases t.limits.permissions <;> simp [and_assoc, eq_comm]

theorem rename_eq_ok_iff {t after : Tree} {source target : Text} :
    t.rename source target = .ok after ↔ t.limits.moves = true ∧
      ∃ from_, t.locate source = .ok from_ ∧ ∃ to_, t.locate target = .ok to_ ∧
        ∃ mode content, t.node? from_ = some (.file mode content) ∧ ¬t.HasDirectory to_ ∧
          after = (t.erase from_).set to_ (.file mode content) := by
  rw [rename, Results.bind_eq_ok_iff, ← exists_and_left]
  refine exists_congr fun from_ => ?_
  rw [and_left_comm]
  refine and_congr_right fun _ => ?_
  rw [Results.bind_eq_ok_iff, ← exists_and_left]
  refine exists_congr fun to_ => ?_
  rw [and_left_comm]
  refine and_congr_right fun _ => ?_
  unfold HasDirectory
  cases t.node? from_ with
  | none => simp
  | some node =>
    cases node with
    | directory mode => cases t.node? to_ <;> simp
    | file mode content =>
      cases t.node? to_ with
      | none => cases t.limits.moves <;> simp [and_assoc, eq_comm]
      | some there => cases there <;> cases t.limits.moves <;> simp [and_assoc, eq_comm]

theorem removeFile_eq_ok_iff {t after : Tree} {path : Text} :
    t.removeFile path = .ok after ↔ ∃ at_, t.locate path = .ok at_ ∧
      ∃ mode content, t.node? at_ = some (.file mode content) ∧ after = t.erase at_ := by
  rw [removeFile, Results.bind_eq_ok_iff]
  refine exists_congr fun at_ => and_congr_right fun _ => ?_
  cases t.node? at_ with
  | none => simp
  | some node => cases node <;> simp [eq_comm]

theorem appendFile_eq_ok_iff {t after : Tree} {path : Text} {content : Bytes} :
    t.appendFile path content = .ok after ↔ ∃ at_, t.locate path = .ok at_ ∧
      ((∃ mode old, t.node? at_ = some (.file mode old) ∧
          after = t.set at_ (.file mode (old ++ content.take (t.roomFor content)))) ∨
        (t.node? at_ = none ∧
          after = t.set at_ (.file (granted 0o666) (content.take (t.roomFor content))))) := by
  rw [appendFile, Results.bind_eq_ok_iff]
  refine exists_congr fun at_ => and_congr_right fun _ => ?_
  cases t.node? at_ with
  | none => simp [eq_comm]
  | some node => cases node <;> simp [eq_comm]

end PullAuth.Tree
