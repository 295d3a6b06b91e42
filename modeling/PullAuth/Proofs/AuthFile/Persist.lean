import PullAuth.AuthFile
import PullAuth.Proofs.File.Contents
import PullAuth.Proofs.File.Names
import PullAuth.Proofs.Runs

/-!
What writing a file through a temporary one leaves behind. `replaceFile_eq_ok_iff` takes the steps
apart: the temporary file is made, filled, closed to others and moved into place. Whatever step
fails, what was begun is taken back, so either the whole content is at the path and no other file is
changed, or no file is (`meets_replaceFile`). Directories that are made on the way make no
difference (`meets_persist`).
-/
namespace PullAuth.AuthFile

/-! ## Steps -/

theorem Steps.operation_eq_ok_iff {f : Tree → Except PathFault Tree} {t after : Tree} :
    Steps.operation f t = (.ok (), after) ↔ f t = .ok after := by
  unfold Steps.operation
  cases f t with
  | error fault =>
    constructor
    · intro h
      cases h
    · intro h
      cases h
  | ok next =>
    constructor
    · intro h
      cases h
      rfl
    · intro h
      cases h
      rfl

theorem fill_eq_ok_iff {path : Text} {content : Bytes} {t after : Tree} :
    fill path content t = (.ok (), after) ↔
      content.length ≤ t.roomFor content ∧ t.writeFile path content = .ok after := by
  unfold fill
  rw [Runs.bind_eq_ok_iff]
  constructor
  · intro ⟨a, between, h, h'⟩
    cases h
    rw [Runs.bind_eq_ok_iff] at h'
    obtain ⟨⟨⟩, filled, hw, hr⟩ := h'
    rw [Steps.operation_eq_ok_iff] at hw
    by_cases room : t.roomFor content < content.length
    · rw [if_pos room] at hr
      cases hr
    · rw [if_neg room] at hr
      cases hr
      exact ⟨by omega, hw⟩
  · intro ⟨room, hw⟩
    refine ⟨t, t, rfl, ?_⟩
    rw [Runs.bind_eq_ok_iff]
    refine ⟨(), after, Steps.operation_eq_ok_iff.2 hw, ?_⟩
    rw [if_neg (by omega)]
    rfl

/-! ## Replacing a file -/

/-- The path of the temporary file through which a file is replaced. -/
def temporaryPath (t : Tree) (path : Path) : Text :=
  (path.parent.child (freshName t path.parent path.name)).toText

theorem exists_temporaryPath_eq (t : Tree) (path : Path) : ∃ number,
    temporaryPath t path = (path.parent.child (temporaryName path.name number)).toText :=
  ⟨_, rfl⟩

/-- Replacing a file goes well if every step does: the temporary file is made, takes the whole
content, gets its permissions and is moved. -/
theorem replaceFile_eq_ok_iff {path : Path} {content : Bytes} {t after : Tree} :
    replaceFile path content t = (.ok (), after) ↔ ∃ created filled closed,
      t.createFile fileMode (temporaryPath t path) = .ok created ∧
      fill (temporaryPath t path) content created = (.ok (), filled) ∧
      filled.setMode (temporaryPath t path) fileMode = .ok closed ∧
      closed.rename (temporaryPath t path) path.toText = .ok after := by
  -- What is done after a fault ends with the same fault, so nothing of it is seen if all goes well.
  have handed_on (fault : PathFault) (between : Tree) :
      (do
        Steps.operation (·.removeFile (temporaryPath t path))
        throw fault : Steps Unit) between ≠ (.ok (), after) := by
    intro h
    obtain ⟨_, _, _, thrown⟩ := Runs.bind_eq_ok_iff.1 h
    cases thrown
  unfold replaceFile
  rw [Runs.bind_eq_ok_iff]
  constructor
  · intro ⟨start, between, hs, h⟩
    cases hs
    obtain ⟨⟨⟩, created, hc, h⟩ := Runs.bind_eq_ok_iff.1 h
    have finish := (Runs.tryCatch_eq_ok_iff handed_on).1 h
    obtain ⟨⟨⟩, filled, hf, h⟩ := Runs.bind_eq_ok_iff.1 finish
    obtain ⟨⟨⟩, closed, hm, h⟩ := Runs.bind_eq_ok_iff.1 h
    exact ⟨created, filled, closed, Steps.operation_eq_ok_iff.1 hc, hf,
      Steps.operation_eq_ok_iff.1 hm, Steps.operation_eq_ok_iff.1 h⟩
  · intro ⟨created, filled, closed, hc, hf, hm, hr⟩
    refine ⟨t, t, rfl, Runs.bind_eq_ok_iff.2
      ⟨(), created, Steps.operation_eq_ok_iff.2 hc, ?_⟩⟩
    refine (Runs.tryCatch_eq_ok_iff handed_on).2 (Runs.bind_eq_ok_iff.2 ⟨(), filled, hf, ?_⟩)
    exact Runs.bind_eq_ok_iff.2 ⟨(), closed, Steps.operation_eq_ok_iff.2 hm,
      Steps.operation_eq_ok_iff.2 hr⟩

/-! ## However it ends -/

theorem Steps.meets_operation {f : Tree → Except PathFault Tree} {P Q E : Tree → Prop}
    (done : ∀ t after, P t → f t = .ok after → Q after)
    (failed : ∀ t fault, P t → f t = .error fault → E t) :
    Runs.Meets P (Steps.operation f) (fun _ => Q) E := by
  intro t ht
  unfold Steps.operation
  cases h : f t with
  | error fault => exact failed t fault ht h
  | ok after => exact done t after ht h

/-- A temporary name ends with digits, so its path can lead to a file. -/
theorem leadsToFiles_temporaryPath (t : Tree) (path : Path) :
    Tree.LeadsToFiles (temporaryPath t path) := by
  obtain ⟨number, chosen⟩ := exists_temporaryPath_eq t path
  have digits_ne_nil : Text.ofHex 8 number ≠ [] := by
    intro e
    have := Text.hexDigits_ne_nil number
    rw [Text.ofHex_eq, List.append_eq_nil_iff] at e
    exact this e.2
  have digits := Spelled.of_hexDigits fun c (hc : c ∈ Text.ofHex 8 number) =>
    Text.exists_of_mem_ofHex hc
  obtain ⟨start, spelled⟩ := Path.exists_toText_of_names
    (p := path.parent.child (temporaryName path.name number)) rfl
    (List.append_ne_nil_of_right_ne_nil _ digits_ne_nil)
  rw [chosen, spelled, temporaryName, ← List.append_assoc]
  exact Tree.leadsToFiles_of_append _ digits_ne_nil digits.noSlash

section
variable {before : Tree} {path : Text} {file : Nat × Bytes}

/-- A file that was added is filled, or it is there with a part of the content. -/
theorem meets_fill (content : Bytes) :
    Runs.Meets (Tree.Adds path file before) (fill path content)
      (fun _ => Tree.Adds path (file.1, content) before)
      (fun now => ∃ file, Tree.Adds path file before now) := by
  have looked : Runs.Meets (Tree.Adds path file before) (get : Steps Tree)
      (fun found now => now = found ∧ Tree.Adds path file before now)
      (fun now => ∃ file, Tree.Adds path file before now) :=
    Runs.Meets.get _ fun now added => ⟨rfl, added⟩
  refine looked.bind fun found => ?_
  have written : Runs.Meets (fun now => now = found ∧ Tree.Adds path file before now)
      (Steps.operation (·.writeFile path content))
      (fun _ => Tree.Adds path (file.1, content.take (found.roomFor content)) before)
      (fun now => ∃ file, Tree.Adds path file before now) := by
    apply Steps.meets_operation
    · rintro now after ⟨rfl, added⟩ h
      exact added.writeFile h
    · rintro now fault ⟨-, added⟩ -
      exact ⟨file, added⟩
  refine written.bind fun _ => ?_
  by_cases room : found.roomFor content < content.length
  · rw [if_pos room]
    exact Runs.Meets.throw _ fun now added => ⟨_, added⟩
  · rw [if_neg room, List.take_of_length_le (by omega)]
    exact Runs.Meets.pure _ fun now added => added

/-- A file that was added is filled, closed to others and moved, or it is still there. -/
theorem meets_finish {target : Text} (ht : Tree.LeadsToFiles target) (content : Bytes) :
    Runs.Meets (Tree.Adds path file before)
      (do
        fill path content
        Steps.operation (·.setMode path fileMode)
        Steps.operation (·.rename path target))
      (fun _ now => ∃ place, Tree.Puts target place (fileMode, content) before now)
      (fun now => ∃ file, Tree.Adds path file before now) := by
  refine (meets_fill content).bind fun _ => ?_
  have closed : Runs.Meets (Tree.Adds path (file.1, content) before)
      (Steps.operation (·.setMode path fileMode))
      (fun _ => Tree.Adds path (fileMode, content) before)
      (fun now => ∃ file, Tree.Adds path file before now) := by
    apply Steps.meets_operation
    · intro now after added h
      exact added.setMode h
    · intro now fault added _
      exact ⟨_, added⟩
  refine closed.bind fun _ => ?_
  apply Steps.meets_operation
  · intro now after added h
    exact added.rename ht h
  · intro now fault added _
    exact ⟨_, added⟩

/-- A file that was added is taken away before a fault is handed on. -/
theorem meets_handler {target : Text} {content : Bytes} (fault : PathFault) :
    Runs.Meets (fun now => ∃ file, Tree.Adds path file before now)
      (do
        Steps.operation (·.removeFile path)
        throw fault : Steps Unit)
      (fun _ now => ∃ place, Tree.Puts target place (fileMode, content) before now)
      (Tree.SameFiles before) := by
  have removed : Runs.Meets (fun now => ∃ file, Tree.Adds path file before now)
      (Steps.operation (·.removeFile path)) (fun _ => Tree.SameFiles before)
      (Tree.SameFiles before) := by
    apply Steps.meets_operation
    · rintro now after ⟨file, added⟩ h
      exact added.removeFile h
    · rintro now fault ⟨file, added⟩ h
      exact absurd h added.removeFile_ne_error
  exact removed.bind fun _ => Runs.Meets.throw fault fun now same => same

end

/-- Replacing a file puts the whole content in its place, or it leaves every file as it was: the
temporary file is moved or taken away. -/
theorem meets_replaceFile {path : Path} (hp : Tree.LeadsToFiles path.toText) (content : Bytes)
    (before : Tree) :
    Runs.Meets (· = before) (replaceFile path content)
      (fun _ now => ∃ place, Tree.Puts path.toText place (fileMode, content) before now)
      (Tree.SameFiles before) := by
  have looked : Runs.Meets (· = before) (get : Steps Tree)
      (fun found now => found = before ∧ now = before) (Tree.SameFiles before) := by
    apply Runs.Meets.get
    intro now start
    exact ⟨start, start⟩
  refine looked.bind fun found => ?_
  have created : Runs.Meets (fun now => found = before ∧ now = before)
      (Steps.operation (·.createFile fileMode (temporaryPath found path)))
      (fun _ => Tree.Adds (temporaryPath found path) (Tree.granted fileMode, []) before)
      (Tree.SameFiles before) := by
    apply Steps.meets_operation
    · rintro now after ⟨-, rfl⟩ h
      exact Tree.adds_createFile (leadsToFiles_temporaryPath found path) h
    · rintro now fault ⟨-, rfl⟩ -
      exact Tree.SameFiles.refl now
  exact created.bind fun _ => (meets_finish hp content).tryCatch meets_handler

/-! ## In a directory that is made -/

theorem sameFiles_ensureDirectory (mode : Nat) (path : Text) (t : Tree) :
    Tree.SameFiles t (ensureDirectory mode path t).2 := by
  unfold ensureDirectory
  split
  · next made h => exact Tree.sameFiles_makeDirectory h
  · exact .refl t
  · split <;> exact .refl t
  · exact .refl t

/-- Directories may be made, also if the last one cannot be; no file is changed. -/
theorem sameFiles_ensureDirectories (root : Text) (mode : Nat) (names : List Text) (t : Tree) :
    Tree.SameFiles t (ensureDirectories root mode names t).2 := by
  induction names generalizing mode t with
  | nil => exact sameFiles_ensureDirectory mode _ t
  | cons name outer ih =>
    have first := sameFiles_ensureDirectory mode (Path.toText ⟨root, (name :: outer).reverse⟩) t
    unfold ensureDirectories
    simp only
    split
    · next between missing =>
      rw [missing] at first
      -- The directories around it are made, and then it is tried again.
      have around := ih 0o777 between
      split
      · next ready made =>
        rw [made] at around
        exact (first.trans around).trans (sameFiles_ensureDirectory mode _ ready)
      · next fault ready failed =>
        rw [failed] at around
        exact first.trans around
    · exact first

theorem persist_eq_ok_iff {path : Path} {content : Bytes} {t after : Tree} :
    persist path content t = (.ok (), after) ↔ ∃ ready,
      ensureDirectories path.root directoryMode path.parent.names.reverse t = (.ok (), ready) ∧
        replaceFile path content ready = (.ok (), after) := by
  unfold persist
  rw [Runs.bind_eq_ok_iff]
  constructor
  · intro ⟨⟨⟩, ready, he, hr⟩
    exact ⟨ready, he, hr⟩
  · intro ⟨ready, he, hr⟩
    exact ⟨(), ready, he, hr⟩

/-- Writing puts the whole content at the path, or it leaves every file as it was. -/
theorem meets_persist {path : Path} (hp : Tree.LeadsToFiles path.toText) (content : Bytes)
    (before : Tree) :
    Runs.Meets (· = before) (persist path content)
      (fun _ now => ∃ place, Tree.Puts path.toText place (fileMode, content) before now)
      (Tree.SameFiles before) := by
  have made : Runs.Meets (· = before)
      (ensureDirectories path.root directoryMode path.parent.names.reverse)
      (fun _ => Tree.SameFiles before) (Tree.SameFiles before) := by
    rintro t rfl
    have same := sameFiles_ensureDirectories path.root directoryMode path.parent.names.reverse t
    split
    · next ended =>
      rw [ended] at same
      exact same
    · next ended =>
      rw [ended] at same
      exact same
  refine made.bind fun _ ready same => ?_
  refine (meets_replaceFile hp content ready).imp ?_ ?_ ready rfl
  · rintro - now ⟨place, put⟩
    exact ⟨place, put.of_sameFiles same⟩
  · intro now unchanged
    exact same.trans unchanged

end PullAuth.AuthFile
