import PullAuth.Credential
import PullAuth.Json.Printer

/-!
Documents whose parts bring their own written form. A credential is written as its entry, other
things may have a value that stands for them, and a thing without one cannot be written.
-/
namespace PullAuth

/-- A document to be written. -/
inductive Document where
  /-- A value that is neither an array nor an object, or one that is taken as it is. -/
  | value (value : Json)
  | array (items : List Document)
  | object (members : List (Text × Document))
  | credential (credential : Credential)
  /-- A thing with a value that stands for it. -/
  | standing (value : Json)
  /-- A thing without written form. -/
  | formless

namespace Document

/-- Why a document cannot be written. -/
inductive Fault where
  /-- A surrogate in a credential keeps no byte. -/
  | unencodable
  /-- A thing has no written form. -/
  | formless
  deriving DecidableEq

/-- Whether a document says anything: only a value or a container that is empty says nothing. -/
def isPresent : Document → Bool
  | value v => v.isPresent
  | array items => !items.isEmpty
  | object members => !members.isEmpty
  | _ => true

def isObject : Document → Bool
  | object _ => true
  | value v => v.isObject
  | _ => false

/-- The member of an object under `key`; other documents have no members. -/
def member? (key : Text) : Document → Option Document
  | object members => Keyed.get? key members
  | value v => (v.member? key).map value
  | _ => none

mutual

/-- The document with the members of every object in ascending order of their keys. -/
def sorted : Document → Document
  | object members => object (Keyed.sorted (sortedMembers members))
  | array items => array (sortedItems items)
  | value v => value v.sorted
  | standing v => standing v.sorted
  | document => document

def sortedItems : List Document → List Document
  | [] => []
  | item :: rest => sorted item :: sortedItems rest

def sortedMembers : List (Text × Document) → List (Text × Document)
  | [] => []
  | (key, item) :: rest => (key, sorted item) :: sortedMembers rest

end

mutual

/-- The value that is written for a document. A value that says nothing stands for nothing. -/
def toJson : Document → Except Fault Json
  | value v => .ok v
  | array items => (itemsToJson items).map .array
  | object members => (membersToJson members).map .object
  | credential c =>
    match c.written? with
    | some entry => .ok entry
    | none => .error .unencodable
  | standing v => if v.isPresent then .ok v else .error .formless
  | formless => .error .formless

/-- The values of items, up to the first that cannot be written. -/
def itemsToJson : List Document → Except Fault (List Json)
  | [] => .ok []
  | item :: rest => do
    let first ← toJson item
    return first :: (← itemsToJson rest)

/-- The members with their values, up to the first that cannot be written. -/
def membersToJson : List (Text × Document) → Except Fault (List (Text × Json))
  | [] => .ok []
  | (key, item) :: rest => do
    let first ← toJson item
    return (key, first) :: (← membersToJson rest)

end

/-- The text of a document, with sorted keys if that is asked for. -/
def write (layout : Json.Layout) (inOrder : Bool) (document : Document) : Except Fault Text :=
  ((if inOrder then document.sorted else document).toJson).map (Json.write layout)

end Document

end PullAuth
