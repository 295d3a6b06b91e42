import PullAuth.Json.Display

/-!
Schemas of JSON values: which kinds a value may have, what its members look like, which members
it must have, and whether it may be empty. A value that does not fit has violations, each at the
keys that lead to it; one of them, the culprit, is reported: the one nearest to the root, of
those equally near the one with the greatest keys, and of those in one place the first.
-/
namespace PullAuth

/-- A kind of JSON value. -/
inductive ValueKind where
  | object
  | array
  | string
  | integer
  | number
  | boolean
  | null
  deriving DecidableEq

namespace ValueKind

def all : List ValueKind := [object, array, string, integer, number, boolean, null]

def name : ValueKind → Text
  | object => "object"
  | array => "array"
  | string => "string"
  | integer => "integer"
  | number => "number"
  | boolean => "boolean"
  | null => "null"

def ofName? (word : Text) : Option ValueKind := all.find? fun kind => kind.name = word

/-- Whether a value is of the kind. A double without a fraction is an integer too; the truth
values are no numbers. -/
def holds : ValueKind → Json → Bool
  | object, .object _ => true
  | array, .array _ => true
  | string, .string _ => true
  | integer, .int _ => true
  | integer, .double value => value.isIntegral
  | number, .int _ => true
  | number, .double _ => true
  | boolean, .bool _ => true
  | null, .null => true
  | _, _ => false

end ValueKind

/-- What a value must look like. -/
structure Schema where
  /-- The kinds it may have; any if none is given. -/
  kinds : List ValueKind := []
  /-- What the members under certain keys must look like. -/
  properties : List (Text × Schema) := []
  /-- What all other members must look like. -/
  others : Option Schema := none
  /-- The members that must be there. -/
  required : List Text := []
  /-- Whether a string must hold a character. -/
  nonEmpty : Bool := false
  /-- Whether missing members are found before a wrong kind. -/
  missingFirst : Bool := false
  /-- Whether no value will do. -/
  impossible : Bool := false

namespace Schema

/-- What is wrong with a value. -/
inductive Breach where
  /-- It is of none of the kinds. -/
  | kind (value : Json) (expected : List ValueKind)
  /-- It is an empty string. -/
  | empty (value : Json)
  | missing (key : Text)
  /-- No value will do. -/
  | forbidden (value : Json)

def Breach.message : Breach → Text
  | kind value expected =>
    value.display ++ " is not of type " ++
      Text.join ", " (expected.map fun kind => Text.quoted kind.name)
  | empty value => value.display ++ " should be non-empty"
  | missing key => Text.quoted key ++ " is a required property"
  | forbidden value => "False schema does not allow " ++ value.display

/-- A breach and the keys that lead to it from the root. -/
structure Violation where
  path : List Text
  breach : Breach

/-- The violation as seen from the value that has the violating one as a member. -/
def Violation.under (key : Text) (v : Violation) : Violation := ⟨key :: v.path, v.breach⟩

def Violation.place (v : Violation) : Text :=
  let keys := Text.join "/" v.path
  if keys.isEmpty then "<root>" else keys

/-- The breach of a value that is of none of the kinds. -/
def kindBreaches (kinds : List ValueKind) (value : Json) : List Breach :=
  if kinds.isEmpty || kinds.any (·.holds value) then [] else [.kind value kinds]

/-- The breaches of a value that lacks members, or a character. -/
def lackBreaches (required : List Text) (nonEmpty : Bool) (value : Json) : List Breach :=
  match value with
  | .object members => (required.filter fun key => !Keyed.has key members).map .missing
  | .string [] => if nonEmpty then [.empty value] else []
  | _ => []

/-- The breach of a value where none will do. -/
def forbiddenBreaches (impossible : Bool) (value : Json) : List Breach :=
  if impossible then [.forbidden value] else []

/-- The breaches of the value itself, in the order in which they are found. -/
def ownBreaches (kinds : List ValueKind) (required : List Text) (nonEmpty missingFirst : Bool)
    (value : Json) : List Breach :=
  if missingFirst then lackBreaches required nonEmpty value ++ kindBreaches kinds value
  else kindBreaches kinds value ++ lackBreaches required nonEmpty value

mutual

/-- Everything that keeps a value from fitting a schema. -/
def violations : Schema → Json → List Violation
  | ⟨kinds, properties, others, required, nonEmpty, missingFirst, impossible⟩, value =>
    (forbiddenBreaches impossible value ++
      ownBreaches kinds required nonEmpty missingFirst value).map (⟨[], ·⟩) ++
    (match value with
      | .object members =>
        propertyViolations properties members ++
          otherViolations others (members.filter fun m => !Keyed.has m.1 properties)
      | _ => [])

/-- The violations of the members under the keys of the properties. -/
def propertyViolations : List (Text × Schema) → Keyed Json → List Violation
  | [], _ => []
  | (key, schema) :: rest, members =>
    (match Keyed.get? key members with
      | some value => (violations schema value).map (·.under key)
      | none => []) ++ propertyViolations rest members

/-- The violations of members that are no properties. -/
def otherViolations : Option Schema → List (Text × Json) → List Violation
  | none, _ => []
  | some schema, members =>
    members.flatMap fun (key, value) => (violations schema value).map (·.under key)

end

/-- Whether the keys of `p` come before those of `q`. -/
def pathBefore : List Text → List Text → Bool
  | [], [] => false
  | [], _ :: _ => true
  | _ :: _, [] => false
  | a :: p, b :: q => Text.before a b || (a == b && pathBefore p q)

/-- Whether `v` is to be reported rather than `w`. -/
def Violation.precedes (v w : Violation) : Bool :=
  v.path.length < w.path.length ||
    (v.path.length == w.path.length && pathBefore w.path v.path)

/-- The violation that is reported. -/
def culprit? : List Violation → Option Violation
  | [] => none
  | v :: rest => some (rest.foldl (fun best w => if w.precedes best then w else best) v)

/-- The culprit of a value that does not fit. -/
def check (schema : Schema) (value : Json) : Option Violation := culprit? (schema.violations value)

/-- A value without culprit has no violations. -/
theorem check_eq_none_iff {schema : Schema} {value : Json} :
    schema.check value = none ↔ schema.violations value = [] := by
  unfold check
  cases schema.violations value <;> simp [culprit?]

end Schema

end PullAuth
