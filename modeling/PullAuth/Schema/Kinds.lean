import PullAuth.Schema.Document

/-!
The kinds of documents and their schemas. A document is checked under the name of its kind; the
kinds known from the start are the requests of the kubelet and the files of registry
credentials. Further kinds can be registered, and a kind can be registered anew.
-/
namespace PullAuth

namespace Schema

/-- The document that asks for a string. -/
def stringDocument : Json := .object [("type", .string "string")]

def requestDocument : Json :=
  .object [
    ("$schema", .string "http://json-schema.org/draft-07/schema#"),
    ("type", .string "object"),
    ("properties", .object [
      ("kind", stringDocument),
      ("apiVersion", stringDocument),
      ("image", .object [("type", .string "string"), ("minLength", .int 1)]),
      ("serviceAccountToken", stringDocument),
      ("serviceAccountAnnotations", .object [
        ("type", .string "object"),
        ("additionalProperties", stringDocument)])]),
    ("required", .array [.string "image"])]

def credentialFileDocument : Json :=
  .object [
    ("$schema", .string "http://json-schema.org/draft-07/schema#"),
    ("type", .string "object"),
    ("properties", .object [
      ("auths", .object [
        ("type", .array [.string "object", .string "null"]),
        ("additionalProperties", .object [
          ("type", .string "object"),
          ("properties", .object [
            ("auth", stringDocument),
            ("username", stringDocument),
            ("password", stringDocument),
            ("email", stringDocument)])])])])]

/-- Requests: an object with a non-empty image. -/
def request : Schema := ofDocument requestDocument

/-- Credential files: an object whose `auths`, unless null, hold an object for every registry. -/
def credentialFile : Schema := ofDocument credentialFileDocument

end Schema

/-- The documents of the schemas of all known kinds. -/
abbrev Kinds := Keyed Json

namespace Kinds

def request : Text := "CredentialProviderRequest"

def credentialFile : Text := "DockerConfig"

/-- The kinds known from the start. -/
def standard : Kinds :=
  [(request, Schema.requestDocument), (credentialFile, Schema.credentialFileDocument)]

/-- The kinds with one more, or with one anew; a schema that says nothing is refused. -/
def register? (kind : Text) (document : Json) (kinds : Kinds) : Option Kinds :=
  if document.isPresent then some (Keyed.put kind document kinds) else none

def refusalMessage : Text := "must supply a schema to register"

def lookup? (kind : Text) (kinds : Kinds) : Option Json := Keyed.get? kind kinds

def unknownMessage (kind : Text) : Text := Text.quoted ("no schema registered for " ++ kind)

end Kinds

/-- A document that does not fit the schema of its kind. -/
structure Misfit where
  kind : Text
  /-- Where the document comes from; empty if that is not to be told. -/
  source : Text
  culprit : Schema.Violation

def Misfit.message (m : Misfit) : Text :=
  "invalid " ++ m.kind ++ (if m.source.isEmpty then ([] : Text) else " from " ++ m.source) ++
    " at " ++ m.culprit.place ++ ": " ++ m.culprit.breach.message

def Schema.misfit? (schema : Schema) (kind source : Text) (document : Json) : Option Misfit :=
  (schema.check document).map (⟨kind, source, ·⟩)

namespace Kinds

/-- Why a document does not come back from the check under the name of a kind. -/
inductive Fault where
  | unknown (kind : Text)
  /-- The document that is known for the kind describes no schema. -/
  | noSchema
  | misfit (misfit : Misfit)

/-- The document itself, if it fits the schema of the kind. -/
def validate (kind source : Text) (document : Json) (kinds : Kinds) : Except Fault Json :=
  match lookup? kind kinds with
  | none => .error (.unknown kind)
  | some description =>
    match Schema.ofDocument? description with
    | none => .error .noSchema
    | some schema =>
      match schema.misfit? kind source document with
      | some misfit => .error (.misfit misfit)
      | none => .ok document

end Kinds

end PullAuth
