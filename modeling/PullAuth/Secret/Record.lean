import PullAuth.Bytes.Base64
import PullAuth.Failure
import PullAuth.Journal

/-!
Secrets of a cluster. A listing gives the values of a secret as base64 texts; a value that is none
is dropped with a warning, and the key counts as missing. A text with characters outside ASCII
breaks the listing down.
-/
namespace PullAuth

/-- A secret with its values decoded. -/
structure Secret where
  name : Option Text
  type : Text
  data : Keyed Bytes
  deriving DecidableEq

/-- A secret as a listing gives it. -/
structure Listed where
  /-- The metadata with the name, where either may be missing. -/
  metadata : Option (Option Text)
  type : Option Text
  data : Keyed Json

namespace Listed

def ofJson (document : Json) : Listed where
  metadata :=
    match document.member? "metadata" with
    | some (.object members) => some ((Keyed.get? "name" members).bind Json.text?)
    | _ => none
  type := (document.member? "type").bind Json.text?
  data := ((document.member? "data").map Json.members).getD []

/-- The name of a listed secret; without metadata it is empty. -/
def name (s : Listed) : Option Text := s.metadata.getD (some [])

/-- Why a value is no base64 text. -/
inductive ValueFault where
  /-- It is no text; the word names the kind of value. -/
  | notText (word : Text)
  | notBase64 (fault : Base64.Fault)
  deriving DecidableEq

def kindWord : Json → Text
  | .null => "NoneType"
  | .bool _ => "bool"
  | .int _ => "int"
  | .double _ => "float"
  | .string _ => "str"
  | .array _ => "list"
  | .object _ => "dict"

/-- The bytes of a value. -/
def decodeValue : Json → Except ValueFault Bytes
  | .string t => (Base64.decode t).mapError .notBase64
  | value => .error (.notText (kindWord value))

def ValueFault.message : ValueFault → Text
  | notText word =>
    "argument should be a bytes-like object or ASCII string, not " ++ ("'" : Text) ++ word ++ "'"
  | notBase64 fault => fault.message

/-- Whether a value breaks the listing down. -/
def breaksDown (value : Json) : Bool :=
  match decodeValue value with
  | .error (.notBase64 .notAscii) => true
  | _ => false

/-- The values that can be decoded, under their keys. -/
def decodedData (data : Keyed Json) : Keyed Bytes :=
  data.filterMap fun (key, value) =>
    match decodeValue value with
    | .ok bs => some (key, bs)
    | .error _ => none

/-- Whether one of the values breaks the listing down. -/
def isBroken (s : Listed) : Bool := s.data.any fun (_, value) => breaksDown value

/-- The warning about a value, if it cannot be decoded. -/
def warning? (s : Listed) (key : Text) (value : Json) : Option Entry :=
  match decodeValue value with
  | .ok _ => none
  | .error fault =>
    some (.warning ("Secret " ++ Text.quotedOption s.name ++ " key " ++ key.quoted ++
      " is not valid base64: " ++ fault.message))

/-- The warnings about the values that cannot be decoded, up to one that breaks the listing
down. -/
def warnings (s : Listed) : List Entry :=
  (s.data.takeWhile fun (_, value) => !breaksDown value).filterMap fun (key, value) =>
    s.warning? key value

/-- The warnings about several secrets, up to one that breaks the listing down. -/
def allWarnings : List Listed → List Entry
  | [] => []
  | s :: rest => s.warnings ++ if s.isBroken then [] else allWarnings rest

/-- The secret with its values decoded. -/
def toSecret (s : Listed) : Except Failure Secret :=
  if s.isBroken then .error (.breakdown .dataNotAscii)
  else .ok ⟨s.name, s.type.getD [], decodedData s.data⟩

end Listed

end PullAuth
