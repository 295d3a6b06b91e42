import PullAuth.Failure
import PullAuth.JournalFile

/-!
Desks: the files that work goes on with and the journal that is kept of it. An entry goes to the
file of the journal as soon as it is noted, so a later look at that file finds it there. Main
statements: entries stay in the journal in their order, and on a desk whose journal goes to no file
the files stay as they are when something is noted.
-/
namespace PullAuth

/-- The files that work goes on with and the journal that is kept of it. -/
structure Desk where
  tree : Tree
  /-- The entries so far. -/
  journal : List Entry := []
  /-- The file that the journal goes to, if it goes to one. -/
  file : Option JournalFile := none

namespace Desk

/-- A desk with a journal in a file, which is made if it is missing. -/
def withFile? (file : Option JournalFile) (tree : Tree) : Except PathFault Desk :=
  match file with
  | some f => (f.append [] tree).map fun tree => { tree, file }
  | none => .ok { tree }

/-- The desk with more entries in the journal. What its file cannot take is left out there. -/
def note (entries : List Entry) (d : Desk) : Desk :=
  { d with
    journal := d.journal ++ entries
    tree := match d.file with
      | some f => (f.append entries d.tree).toOption.getD d.tree
      | none => d.tree }

/-- Whether a path leads to the file of the journal. -/
def isJournal (path : Path) (d : Desk) : Bool :=
  match d.file with
  | some f =>
    match d.tree.locate path.toText, d.tree.locate (f.location d.tree).toText with
    | .ok a, .ok b => a == b
    | _, _ => false
  | none => false

/-- The desk after another file took the place of the one at a path. If that was the file of the
journal, the journal goes to no file from then on. -/
def replaced (path : Path) (d : Desk) : Desk :=
  if d.isJournal path then { d with file := none } else d

/-! ## What noting does -/

@[simp] theorem journal_note (entries : List Entry) (d : Desk) :
    (d.note entries).journal = d.journal ++ entries := rfl

@[simp] theorem file_note (entries : List Entry) (d : Desk) : (d.note entries).file = d.file := rfl

theorem tree_note_of_no_file (entries : List Entry) {d : Desk} (h : d.file = none) :
    (d.note entries).tree = d.tree := by
  simp [note, h]

theorem replaced_of_no_file (path : Path) {d : Desk} (h : d.file = none) :
    d.replaced path = d := by
  simp [replaced, isJournal, h]

end Desk

/-- Work at a desk. It may fail; what was done and noted before stays. Work is named by what goes
on: `loading`, `matching`. -/
abbrev Work (α : Type) := ExceptT Failure (StateM Desk) α

namespace Work

def note (entries : List Entry) : Work Unit := fun desk => (.ok (), desk.note entries)

/-- Work that is done with a result. -/
def of {α : Type} (result : Except Failure α) : Work α := fun desk => (result, desk)

/-- A look at the files as they are. -/
def look {α : Type} (f : Tree → Except Failure α) : Work α := fun desk => (f desk.tree, desk)

/-- Work whose failure is told in other words. -/
def mapFailure {α : Type} (f : Failure → Failure) (work : Work α) : Work α := fun desk =>
  ((work desk).1.mapError f, (work desk).2)

end Work

end PullAuth
