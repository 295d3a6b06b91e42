import PullAuth.File.Path
import PullAuth.Text.Utf8

/-!
File trees: directories and regular files under the lists of names that lead to them. A path given
as text is turned into the bytes of its names, with surrogates that keep a byte standing for it,
and followed from the root or from the working directory; double dots lead back. The operations
fail as those of a system do whose names have at most 255 bytes and whose paths have fewer than
4096. A system may also be short of room or refuse changes for reasons of its own.
-/
namespace PullAuth

/-- Why an operation on files failed. -/
inductive SystemError where
  | notFound
  | notDirectory
  | isDirectory
  | alreadyThere
  | nameTooLong
  | noRoom
  | notPermitted
  deriving DecidableEq

/-- Why a path could not be used. -/
inductive PathFault where
  /-- A surrogate in it keeps no byte. -/
  | unencodable
  /-- A null character is in it. -/
  | nullCharacter
  | system (error : SystemError)
  deriving DecidableEq

/-- The place of a file: the names that lead to it from the root. -/
abbrev Location := List Bytes

/-- A regular file or a directory, with its permissions. -/
inductive Node where
  | file (mode : Nat) (content : Bytes)
  | directory (mode : Nat)
  deriving DecidableEq

def Node.isDirectory : Node → Bool
  | directory _ => true
  | file _ _ => false

/-- What a system allows whatever the tree looks like. -/
structure Limits where
  /-- The most bytes that it takes into a file at once; any number if there is no limit. -/
  room : Option Nat := none
  /-- Whether permissions can be changed. -/
  permissions : Bool := true
  /-- Whether files can be moved. -/
  moves : Bool := true
  deriving DecidableEq

/-- A file tree and the directory that relative paths start from. The root is always there. -/
structure Tree where
  nodes : List (Location × Node) := []
  here : Location := []
  limits : Limits := {}

namespace Tree

def node? (t : Tree) (at_ : Location) : Option Node :=
  if at_.isEmpty then some (.directory 0o755) else t.nodes.lookup at_

def set (t : Tree) (at_ : Location) (node : Node) : Tree :=
  { t with nodes := (at_, node) :: t.nodes.filter fun entry => !(entry.1 == at_) }

def erase (t : Tree) (at_ : Location) : Tree :=
  { t with nodes := t.nodes.filter fun entry => !(entry.1 == at_) }

/-- The tree without the node at a location and all below it. -/
def prune (t : Tree) (at_ : Location) : Tree :=
  { t with nodes := t.nodes.filter fun entry => !at_.isPrefixOf entry.1 }

/-! ## Looking at a changed tree -/

/-- Leaving out the nodes at one location does not concern the others. -/
theorem lookup_filter_ne (nodes : List (Location × Node)) (at_ other : Location)
    (h : other ≠ at_) :
    (nodes.filter fun entry => !(entry.1 == at_)).lookup other = nodes.lookup other := by
  induction nodes with
  | nil => rfl
  | cons entry rest ih =>
    obtain ⟨place, node⟩ := entry
    by_cases hp : place = at_
    · subst hp
      have hn : (other == place) = false := by simp [h]
      simp [ih, List.lookup_cons, hn]
    · by_cases ho : other = place
      · simp [hp, ho]
      · have hn : (other == place) = false := by simp [ho]
        simp [hp, List.lookup_cons, hn, ih]

theorem lookup_filter_self (nodes : List (Location × Node)) (at_ : Location) :
    (nodes.filter fun entry => !(entry.1 == at_)).lookup at_ = none := by
  induction nodes with
  | nil => rfl
  | cons entry rest ih =>
    obtain ⟨place, node⟩ := entry
    by_cases hp : place = at_
    · simp [hp, ih]
    · have hn : (at_ == place) = false := by simp [Ne.symm hp]
      simp [hp, List.lookup_cons, hn, ih]

theorem node?_set_self (t : Tree) {at_ : Location} (node : Node) (h : at_ ≠ []) :
    (t.set at_ node).node? at_ = some node := by
  simp [node?, set, h]

theorem node?_set_of_ne (t : Tree) {at_ other : Location} (node : Node) (h : other ≠ at_) :
    (t.set at_ node).node? other = t.node? other := by
  have hn : (other == at_) = false := by simp [h]
  simp only [node?, set, List.lookup_cons, hn, lookup_filter_ne t.nodes at_ other h]

theorem node?_erase_self (t : Tree) {at_ : Location} (h : at_ ≠ []) :
    (t.erase at_).node? at_ = none := by
  simp [node?, erase, h, lookup_filter_self]

theorem node?_erase_of_ne (t : Tree) {at_ other : Location} (h : other ≠ at_) :
    (t.erase at_).node? other = t.node? other := by
  simp only [node?, erase, lookup_filter_ne t.nodes at_ other h]

/-! ## Following paths -/

/-- The steps of a path in bytes. -/
structure Route where
  /-- Whether it starts at the root. -/
  absolute : Bool
  names : List Bytes
  /-- Whether it ends with a slash, so that it can lead to a directory only. -/
  toDirectory : Bool

/-- The byte strings between slashes that are not empty. -/
def routeNames (bs : Bytes) : List Bytes :=
  (Text.pieces 0x2F bs).filter fun name => !name.isEmpty

def route (path : Text) : Except PathFault Route :=
  match Utf8.encodeKept? path with
  | none => .error .unencodable
  | some bs =>
    if bs.contains 0 then .error .nullCharacter
    else if bs.isEmpty then .error (.system .notFound)
    else if 4096 ≤ bs.length then .error (.system .nameTooLong)
    else .ok ⟨bs.head? = some 0x2F, routeNames bs, bs.getLast? = some 0x2F⟩

def step (t : Tree) (at_ : Location) (name : Bytes) : Except SystemError Location :=
  match t.node? at_ with
  | none => .error .notFound
  | some (.file _ _) => .error .notDirectory
  | some (.directory _) =>
    if name = [0x2E] then .ok at_
    else if name = [0x2E, 0x2E] then .ok at_.dropLast
    else if 255 < name.length then .error .nameTooLong
    else .ok (at_ ++ [name])

/-- The location that a path leads to; only its parent needs to be there. -/
def locate (t : Tree) (path : Text) : Except PathFault Location := do
  let r ← route path
  match r.names.foldlM t.step (if r.absolute then [] else t.here) with
  | .error e => .error (.system e)
  | .ok at_ =>
    match r.toDirectory, t.node? at_ with
    | true, some (.file _ _) => .error (.system .notDirectory)
    | _, _ => .ok at_

def stat (t : Tree) (path : Text) : Except PathFault Node := do
  let at_ ← t.locate path
  match t.node? at_ with
  | some node => .ok node
  | none => .error (.system .notFound)

def read (t : Tree) (path : Text) : Except PathFault Bytes := do
  match ← t.stat path with
  | .file _ content => .ok content
  | .directory _ => .error (.system .isDirectory)

/-- Whether a question about a path that fails with this fault is answered by no, rather than
failing: the path leads nowhere or cannot be spelled. -/
def PathFault.isAbsence : PathFault → Bool
  | .system .notFound => true
  | .system .notDirectory => true
  | .system _ => false
  | .unencodable => true
  | .nullCharacter => true

/-- The node that a path leads to, if it leads anywhere. -/
def find? (t : Tree) (path : Text) : Except PathFault (Option Node) :=
  match t.stat path with
  | .ok node => .ok (some node)
  | .error fault => if PathFault.isAbsence fault then .ok none else .error fault

/-- The names in the directory at a location, in the order of their texts. -/
def namesIn (t : Tree) (at_ : Location) : List Text :=
  let names := t.nodes.filterMap fun (place, _) =>
    match place.reverse with
    | name :: outer => if outer.reverse = at_ then Utf8.decode .keeping name else none
    | [] => none
  names.mergeSort Text.notAfter

/-! ## Changes -/

/-- The permissions that new files and directories get, from those that were asked for. -/
def granted (mode : Nat) : Nat := mode &&& 0o755

def makeDirectory (t : Tree) (mode : Nat) (path : Text) : Except PathFault Tree := do
  let at_ ← t.locate path
  match t.node? at_ with
  | some _ => .error (.system .alreadyThere)
  | none => .ok (t.set at_ (.directory (granted mode)))

def createFile (t : Tree) (mode : Nat) (path : Text) : Except PathFault Tree := do
  let at_ ← t.locate path
  match t.node? at_ with
  | some _ => .error (.system .alreadyThere)
  | none => .ok (t.set at_ (.file (granted mode) []))

/-- How many bytes of the content there is room for. -/
def roomFor (t : Tree) (content : Bytes) : Nat := t.limits.room.getD content.length

/-- The tree with a file that has new content, as much of it as there is room for. -/
def writeFile (t : Tree) (path : Text) (content : Bytes) : Except PathFault Tree := do
  let at_ ← t.locate path
  match t.node? at_ with
  | some (.file mode _) => .ok (t.set at_ (.file mode (content.take (t.roomFor content))))
  | some (.directory _) => .error (.system .isDirectory)
  | none => .error (.system .notFound)

/-- The tree with other permissions on a file. -/
def setMode (t : Tree) (path : Text) (mode : Nat) : Except PathFault Tree := do
  let at_ ← t.locate path
  match t.node? at_, t.limits.permissions with
  | none, _ => .error (.system .notFound)
  | _, false => .error (.system .notPermitted)
  | some (.file _ content), true => .ok (t.set at_ (.file mode content))
  | some (.directory _), true => .ok (t.set at_ (.directory mode))

/-- The tree with a file moved to another path, in place of the file there. -/
def rename (t : Tree) (source target : Text) : Except PathFault Tree := do
  let from_ ← t.locate source
  let to_ ← t.locate target
  match t.node? from_, t.node? to_ with
  | none, _ => .error (.system .notFound)
  | some (.file _ _), some (.directory _) => .error (.system .isDirectory)
  | some (.directory _), _ => .error (.system .isDirectory)
  | some node, _ =>
    if t.limits.moves then .ok ((t.erase from_).set to_ node)
    else .error (.system .notPermitted)

def removeFile (t : Tree) (path : Text) : Except PathFault Tree := do
  let at_ ← t.locate path
  match t.node? at_ with
  | some (.file _ _) => .ok (t.erase at_)
  | some (.directory _) => .error (.system .isDirectory)
  | none => .error (.system .notFound)

/-- The tree with content put at the end of a file, which is made if it is missing, as much of it
as there is room for. -/
def appendFile (t : Tree) (path : Text) (content : Bytes) : Except PathFault Tree := do
  let at_ ← t.locate path
  let added := content.take (t.roomFor content)
  match t.node? at_ with
  | some (.file mode old) => .ok (t.set at_ (.file mode (old ++ added)))
  | some (.directory _) => .error (.system .isDirectory)
  | none => .ok (t.set at_ (.file (granted 0o666) added))

end Tree

end PullAuth
