import PullAuth.Bytes.Base64
import PullAuth.Json.Display
import PullAuth.Text.Utf8

/-!
Registry credentials. A user name and a password are kept as one string: joined by a colon,
encoded as UTF-8 and written in base64. Bytes that are not UTF-8 survive a reading and a writing.
-/
namespace PullAuth

/-- A user name and a password. -/
structure Credential where
  username : Text := []
  password : Text := []
  deriving DecidableEq

namespace Credential

/-- The base64 text of the name, a colon and the password; none if a surrogate in them keeps no
byte. -/
def encode? (c : Credential) : Option Text :=
  (Utf8.encodeKept? (c.username ++ ":" ++ c.password)).map Base64.encode

/-- The entry of a credential file that holds the credential. -/
def written? (c : Credential) : Option Json :=
  c.encode?.map fun auth => .object [("auth", .string auth)]

/-- The credential in decoded bytes: the name ends at the first colon, and null characters around
the password do not belong to it. Without a colon both are empty. -/
def ofBytes (bs : Bytes) : Credential :=
  let text := (Utf8.decode .keeping bs).getD []
  match Text.cut? (':' : CodePoint) text with
  | some (username, password) => ⟨username, Text.trim (· = '\x00') password⟩
  | none => {}

/-- The credential in a base64 text. Line ends in the text are passed over. -/
def decode (auth : Text) : Except Base64.Fault Credential :=
  (Base64.decode (auth.filter fun c => !(c = '\r' || c = '\n'))).map ofBytes

/-- The text of an `auth` given as bytes: what is not ASCII becomes a replacement character, which
no base64 text holds. -/
def authOfBytes (bs : Bytes) : Text :=
  bs.map fun b => if b.toNat < 0x80 then .ofByte b else .ofChar '\ufffd'

/-- Why an entry of a credential file gives no credential. -/
inductive EntryFault where
  /-- Its `auth` is no text. -/
  | notText
  /-- Its `auth` is not base64. -/
  | notBase64 (fault : Base64.Fault)
  deriving DecidableEq

def EntryFault.message : EntryFault → Text
  | notText => "docker auth is no text"
  | notBase64 fault => "unable to decode docker auth: " ++ fault.message

/-- The text of the `auth` in an entry; a value that says nothing counts as empty. -/
def authText (auth : Json) : Except EntryFault Text :=
  if auth.isPresent then
    match auth with
    | .string t => .ok t
    | _ => .error .notText
  else .ok []

/-- The name and the password that an entry gives outright, because it has one of them and no
`auth`. A missing one is an empty text. -/
def outright? (members : Keyed Json) : Option (Json × Json) :=
  if ((Keyed.get? "auth" members).getD .null).isNull &&
      (Keyed.has "username" members || Keyed.has "password" members) then
    some ((Keyed.get? "username" members).getD (.string []),
      (Keyed.get? "password" members).getD (.string []))
  else none

/-- The credential in an entry of a credential file: the name and the password that it gives
outright, as they are spelled, or else what its `auth` holds. -/
def ofEntry (members : Keyed Json) : Except EntryFault Credential :=
  match outright? members with
  | some (username, password) => .ok ⟨username.spelled, password.spelled⟩
  | none => do
    let auth ← authText ((Keyed.get? "auth" members).getD .null)
    (decode auth).mapError .notBase64

end Credential

end PullAuth
