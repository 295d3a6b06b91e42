import PullAuth.Text.Basic

/-!
Paths as texts: a root, which is missing in relative paths, and the names behind it. Empty names
and single dots are left out, double dots stay. Two slashes in front are a root of their own, three
or more are one.
-/
namespace PullAuth

/-- A path. -/
structure Path where
  /-- The slashes in front: none, one or two. -/
  root : Text
  /-- The names, the outermost first. -/
  names : List Text
  deriving DecidableEq

namespace Path

def rootOf (t : Text) : Text :=
  match (t.takeWhile fun (c : CodePoint) => c = '/').length with
  | 0 => []
  | 2 => "//"
  | _ => "/"

def ofText (t : Text) : Path :=
  ⟨rootOf t, (Text.split '/' t).filter fun name => !(name.isEmpty || name = ".")⟩

def toText (p : Path) : Text :=
  let t := p.root ++ Text.join "/" p.names
  if t.isEmpty then "." else t

def isAbsolute (p : Path) : Bool := !p.root.isEmpty

/-- The path `q` seen from `p`; an absolute `q` is not changed. -/
def join (p q : Path) : Path := if q.isAbsolute then q else ⟨p.root, p.names ++ q.names⟩

/-- The last name; empty if there is none. -/
def name (p : Path) : Text := p.names.getLastD []

def parent (p : Path) : Path := ⟨p.root, p.names.dropLast⟩

def child (p : Path) (name : Text) : Path := ⟨p.root, p.names ++ [name]⟩

/-- The names of an absolute path with double dots taken back. -/
def withoutDots (names : List Text) : List Text :=
  names.foldl (fun before (name : Text) =>
    if name = ".." then before.dropLast else before ++ [name]) []

@[simp] theorem parent_child (p : Path) (name : Text) : (p.child name).parent = p := by
  simp [child, parent]

@[simp] theorem name_child (p : Path) (name : Text) : (p.child name).name = name := by
  simp [child, Path.name]

end Path

end PullAuth
