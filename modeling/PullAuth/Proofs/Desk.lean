import PullAuth.Proofs.File.Places
import PullAuth.Proofs.File.Shape

/-!
What noting does to the files. The file of a journal has one place, whatever is noted, and noting
concerns no other place (`continues_note`). Once that file is there the journal is open: from then
on noting only makes it longer, and the tree keeps its shape. Opening a journal is noting nothing
(`withFile?_eq_note`), and it opens it (`isOpen_of_withFile?`).
-/
namespace PullAuth

namespace JournalFile

/-- The place of the file; none if its path cannot be spelled. -/
def place? (f : JournalFile) (t : Tree) : Option Location :=
  Tree.place? t.here (f.location t).toText

theorem place?_congr (f : JournalFile) {t after : Tree} (h : after.here = t.here) :
    f.place? after = f.place? t := by
  rw [place?, place?, location, location, h]

/-- What is appended makes a file in the place of the journal, which is no directory. -/
theorem append_eq_set {f : JournalFile} {entries : List Entry} {t after : Tree}
    (h : f.append entries t = .ok after) : ∃ at_ mode content, f.place? t = some at_ ∧
      ¬t.HasDirectory at_ ∧ after = t.set at_ (.file mode content) := by
  obtain ⟨at_, hl, ⟨mode, old, hn, rfl⟩ | ⟨hn, rfl⟩⟩ := Tree.appendFile_eq_ok_iff.1 h
  · exact ⟨at_, _, _, Tree.place?_of_locate hl, Tree.not_hasDirectory_of_file hn, rfl⟩
  · exact ⟨at_, _, _, Tree.place?_of_locate hl, Tree.not_hasDirectory_of_none hn, rfl⟩

end JournalFile

namespace Desk

variable {d after : Desk}

/-- The place of the file that the journal goes to, if it goes to one. -/
def place? (d : Desk) : Option Location := d.file.bind fun f => f.place? d.tree

/-- Where the journal goes there is a file. -/
def IsOpen (d : Desk) : Prop := ∀ at_, d.place? = some at_ → d.tree.kind? at_ = some false

/-- A desk with more in the journal: nothing changes but the file of the journal, and if that was
there the tree keeps its shape. -/
structure Continues (d after : Desk) : Prop where
  file : after.file = d.file
  here : after.tree.here = d.tree.here
  others : ∀ at_, d.place? ≠ some at_ → after.tree.node? at_ = d.tree.node? at_
  shape : d.IsOpen → Tree.SameShape d.tree after.tree

theorem Continues.place? (h : Continues d after) : after.place? = d.place? := by
  rw [Desk.place?, Desk.place?, h.file]
  cases d.file with
  | none => rfl
  | some f => exact f.place?_congr h.here

theorem Continues.isOpen (h : Continues d after) (ho : d.IsOpen) : after.IsOpen := by
  intro at_ hp
  rw [h.place?] at hp
  rw [(h.shape ho).kind]
  exact ho at_ hp

theorem Continues.trans {last : Desk} (h₁ : Continues d after) (h₂ : Continues after last) :
    Continues d last := by
  refine ⟨h₂.file.trans h₁.file, h₂.here.trans h₁.here, fun at_ hp => ?_, fun ho => ?_⟩
  · rw [h₂.others at_ (h₁.place? ▸ hp), h₁.others at_ hp]
  · exact (h₁.shape ho).trans (h₂.shape (h₁.isOpen ho))

/-- The tree after an entry: as it was, or with another file in the place of the journal. -/
theorem note_cases (entries : List Entry) (d : Desk) :
    (d.note entries).tree = d.tree ∨ ∃ at_ mode content, d.place? = some at_ ∧
      ¬d.tree.HasDirectory at_ ∧ (d.note entries).tree = d.tree.set at_ (.file mode content) := by
  cases hf : d.file with
  | none => exact .inl (tree_note_of_no_file entries hf)
  | some f =>
    simp only [note, place?, hf]
    cases ha : f.append entries d.tree with
    | error fault => exact .inl rfl
    | ok tree =>
      obtain ⟨at_, mode, content, hp, hd, rfl⟩ := JournalFile.append_eq_set ha
      exact .inr ⟨at_, mode, content, hp, hd, rfl⟩

theorem continues_note (entries : List Entry) (d : Desk) : Continues d (d.note entries) := by
  obtain e | ⟨at_, mode, content, hp, -, e⟩ := note_cases entries d
  · exact ⟨rfl, by rw [e], fun _ _ => by rw [e], fun _ => by rw [e]; exact .refl _⟩
  · refine ⟨rfl, by rw [e]; rfl, fun other ho => ?_, fun ho => ?_⟩
    · have ne : other ≠ at_ := by
        rintro rfl
        exact ho hp
      rw [e, Tree.node?_set_of_ne _ _ ne]
    · rw [e]
      exact Tree.sameShape_set_file (ho at_ hp) mode content

/-! ## Opening a journal -/

section
variable {file : Option JournalFile} {t : Tree}

theorem withFile?_some_eq_ok_iff {f : JournalFile} :
    withFile? (some f) t = .ok d ↔ ∃ tree, f.append [] t = .ok tree ∧ d = { tree, file := f } := by
  rw [withFile?]
  cases f.append [] t <;> simp [Except.map, eq_comm]

theorem withFile?_eq_note (h : withFile? file t = .ok d) : d = note [] { tree := t, file } := by
  cases file with
  | none =>
    cases h
    rfl
  | some f =>
    obtain ⟨tree, ha, rfl⟩ := withFile?_some_eq_ok_iff.1 h
    simp only [note, ha]
    rfl

theorem continues_withFile? (h : withFile? file t = .ok d) : Continues { tree := t, file } d := by
  rw [withFile?_eq_note h]
  exact continues_note _ _

theorem isOpen_of_withFile? (h : withFile? file t = .ok d) : d.IsOpen := by
  intro at_ hp
  cases file with
  | none =>
    cases h
    cases hp
  | some f =>
    rw [(continues_withFile? h).place?] at hp
    obtain ⟨tree, ha, rfl⟩ := withFile?_some_eq_ok_iff.1 h
    obtain ⟨found, mode, content, hf, hd, rfl⟩ := JournalFile.append_eq_set ha
    obtain rfl : found = at_ := Option.some.inj (hf.symm.trans hp)
    rw [Tree.kind?, Tree.node?_set_self _ _ (Tree.ne_root_of_not_hasDirectory hd)]
    rfl

end

end Desk

end PullAuth
