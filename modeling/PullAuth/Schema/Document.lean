import PullAuth.Schema.Basic

/-!
The documents that describe schemas: objects with the members `type`, `properties`,
`additionalProperties`, `required` and `minLength`. A document describes a schema only if its parts
are of the right form; in place of the schema of a property a truth value may stand, for any value
or for none.
-/
namespace PullAuth.Schema

mutual

/-- The schema that the members of a document describe. -/
def ofMembers : List (Text × Json) → Schema
  | [] => {}
  | (key, value) :: rest =>
    let schema := ofMembers rest
    match value with
    | .string word =>
      if key = "type" then { schema with kinds := (ValueKind.ofName? word).toList } else schema
    | .array items =>
      let words := items.filterMap Json.text?
      if key = "type" then { schema with kinds := words.filterMap ValueKind.ofName? }
      else if key = "required" then
        { schema with required := words, missingFirst := !schema.kinds.isEmpty }
      else schema
    | .int n => if key = "minLength" then { schema with nonEmpty := 0 < n } else schema
    | .object members =>
      if key = "properties" then { schema with properties := ofProperties members }
      else if key = "additionalProperties" then { schema with others := some (ofMembers members) }
      else schema
    | _ => schema

/-- The schemas that documents under keys describe. -/
def ofProperties : List (Text × Json) → List (Text × Schema)
  | [] => []
  | (key, value) :: rest =>
    (match value with
      | .object members => [(key, ofMembers members)]
      | .bool allowed => [(key, { impossible := !allowed })]
      | _ => [(key, {})]) ++ ofProperties rest

end

/-- The schema that a document describes: `type`, `properties`, `additionalProperties`, `required`
and a `minLength` of one. -/
def ofDocument (document : Json) : Schema := ofMembers document.members

/-! ## Documents of the right form -/

/-- Whether a value is one word for a kind, or several different ones. -/
def isKinds : Json → Bool
  | .string word => (ValueKind.ofName? word).isSome
  | .array items =>
    let words := items.filterMap Json.text?
    !items.isEmpty && items.all Json.isString &&
      words.all (fun word => (ValueKind.ofName? word).isSome) && words.Nodup
  | _ => false

/-- Whether a value is an array of different keys. -/
def isKeys : Json → Bool
  | .array items => items.all Json.isString && (items.filterMap Json.text?).Nodup
  | _ => false

mutual

/-- Whether a document is of the form of those that describe schemas. -/
def isDocument : Json → Bool
  | .bool _ => true
  | .object members => areParts members
  | _ => false

/-- Whether the members of a document are of the right form. -/
def areParts : List (Text × Json) → Bool
  | [] => true
  | (key, value) :: rest =>
    (if key = "type" then isKinds value
      else if key = "required" then isKeys value
      else if key = "additionalProperties" then isDocument value
      else if key = "properties" then
        match value with
        | .object members => areDocuments members
        | _ => false
      else true) && areParts rest

/-- Whether every value is of the form of a document that describes a schema. -/
def areDocuments : List (Text × Json) → Bool
  | [] => true
  | (_, value) :: rest => isDocument value && areDocuments rest

end

/-- The schema that a document describes, if it is of the right form. -/
def ofDocument? (document : Json) : Option Schema :=
  if isDocument document then some (ofDocument document) else none

end PullAuth.Schema
