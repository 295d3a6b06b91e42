import PullAuth.Bytes.Base64Url
import PullAuth.Json.Depth
import PullAuth.Text.Encoding

/-!
The namespace that a service account token asserts. A token is three segments in base64 between
dots: a header, the claims and a signature, which is not checked here, because the kubelet hands
over a token that it has minted itself. The namespace stands under the claim `kubernetes.io`.
-/
namespace PullAuth.Token

/-- Why a token asserts no namespace. -/
inductive Fault where
  | emptyToken
  /-- A surrogate in it cannot be encoded. -/
  | unencodable
  | unparsable
  /-- The document of a segment is nested too deep to be read. -/
  | tooDeep
  /-- Its header calls an extension critical that nobody knows. -/
  | unknownExtension (name : Text)
  | missingClaim
  /-- The claim is no object. -/
  | claimNotMapping
  /-- The claim has no namespace. -/
  | missingNamespace
  | namespaceNotString
  deriving DecidableEq

/-- The members of the object that the bytes of a segment write. -/
def membersOf (bs : Bytes) : Except Fault (Keyed Json) :=
  match (Encoding.decodeDetected bs).map Json.read with
  | some (.ok (.object members)) => .ok members
  | some (.error .tooDeep) => .error .tooDeep
  | _ => .error .unparsable

/-- What is wrong with an extension that a header calls critical, if anything is: it has to be known
and in use. -/
def extensionFault? (header : Keyed Json) : Json → Option Fault
  | .string name =>
    if name ≠ "b64" then some (.unknownExtension name)
    else if Keyed.has name header then none else some .unparsable
  | _ => some .unparsable

/-- What is wrong with the extensions that a header calls critical, if anything is. -/
def extensionsFault? (header : Keyed Json) : Option Fault :=
  match Keyed.get? "crit" header with
  | none => none
  | some (.array names) =>
    if names.isEmpty then some .unparsable else names.findSome? (extensionFault? header)
  | some _ => some .unparsable

/-- Whether the key that a header names, if it does, is named by a string. -/
def keyHolds (header : Keyed Json) : Bool :=
  match Keyed.get? "kid" header with
  | none => true
  | some kid => kid.isString

/-- Whether a header says that the claims are not encoded. -/
def saysUnencoded (header : Keyed Json) : Bool :=
  match Keyed.get? "b64" header with
  | some (.bool false) => true
  | _ => false

/-- What is wrong with the members of a header, if anything is. -/
def headerFault? (header : Keyed Json) : Option Fault :=
  if !keyHolds header then some .unparsable
  else (extensionsFault? header).or (if saysUnencoded header then some .unparsable else none)

/-- What was found of a text, which is no token without it. -/
def required {α : Type} (found : Option α) : Except Fault α :=
  match found with
  | some value => .ok value
  | none => .error .unparsable

/-- The claims of a token. All segments are decoded before the members of the header are looked at,
and the claims are read last. -/
def claims (token : Bytes) : Except Fault (Keyed Json) := do
  let (signed, signature) ← required (Text.cutLast? 0x2E token)
  let (head, body) ← required (Text.cut? 0x2E signed)
  let header ← membersOf (← required (Base64Url.decode? head))
  let body ← required (Base64Url.decode? body)
  let _ ← required (Base64Url.decode? signature)
  match headerFault? header with
  | some fault => .error fault
  | none => membersOf body

/-- The claim that holds the namespace. -/
def claimKey : Text := "kubernetes.io"

/-- The namespace that claims assert; it may be empty. -/
def namespaceIn (claims : Keyed Json) : Except Fault Text :=
  match Keyed.get? claimKey claims with
  | none => .error .missingClaim
  | some (.object claim) =>
    match Keyed.get? "namespace" claim with
    | none => .error .missingNamespace
    | some (.string namespaceName) => .ok namespaceName
    | some _ => .error .namespaceNotString
  | some _ => .error .claimNotMapping

def namespaceOf (token : Text) : Except Fault Text :=
  if token.isEmpty then .error .emptyToken
  else match Utf8.encode? token with
    | none => .error .unencodable
    | some bs => claims bs >>= namespaceIn

end PullAuth.Token
