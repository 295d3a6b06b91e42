import PullAuth.Keyed
import PullAuth.Number.Double

/-!
JSON values. Whole numbers are unbounded and kept apart from doubles, and the members of an
object have an order.
-/
namespace PullAuth

/-- A JSON value. -/
inductive Json where
  | null
  | bool (value : Bool)
  | int (value : Int)
  | double (value : Double)
  | string (value : Text)
  | array (items : List Json)
  | object (members : List (Text × Json))

namespace Json

instance : Inhabited Json := ⟨null⟩

/-- The member of an object under `key`; other values have no members. -/
def member? (key : Text) : Json → Option Json
  | object members => Keyed.get? key members
  | _ => none

/-- The members of an object; other values have none. -/
def members : Json → Keyed Json
  | object members => members
  | _ => []

def text? : Json → Option Text
  | string value => some value
  | _ => none

def isObject : Json → Bool
  | object _ => true
  | _ => false

def isString : Json → Bool
  | string _ => true
  | _ => false

def isNull : Json → Bool
  | null => true
  | _ => false

/-- Whether the value says anything: it is neither `null`, `false`, zero nor empty. -/
def isPresent : Json → Bool
  | null => false
  | bool value => value
  | int value => value != 0
  | double value => !value.isZero
  | string value => !value.isEmpty
  | array items => !items.isEmpty
  | object members => !members.isEmpty

mutual

/-- The value with the members of every object in ascending order of their keys. -/
def sorted : Json → Json
  | object members => object (Keyed.sorted (sortedMembers members))
  | array items => array (sortedItems items)
  | value => value

def sortedItems : List Json → List Json
  | [] => []
  | item :: rest => sorted item :: sortedItems rest

/-- The members in their order, each value with its objects sorted. -/
def sortedMembers : List (Text × Json) → List (Text × Json)
  | [] => []
  | (key, value) :: rest => (key, sorted value) :: sortedMembers rest

end

end Json

end PullAuth
