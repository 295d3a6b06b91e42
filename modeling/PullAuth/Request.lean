import PullAuth.Failure
import PullAuth.Json.Printer
import PullAuth.Text.Encoding

/-!
What the kubelet asks and what it is told. A request names an image and carries the token of the
service account that pulls it. The response carries no credential, because those are found in the
credential file.
-/
namespace PullAuth

/-- A request of the kubelet. -/
structure Request where
  /-- The name of the image without tag and digest. -/
  image : Text
  /-- The token of the service account; empty if there is none. -/
  token : Text
  deriving DecidableEq

namespace Request

def source : Text := "stdin"

/-- The text of a member; empty if there is none. -/
def memberText (key : Text) (document : Json) : Text :=
  ((document.member? key).bind Json.text?).getD []

def ofJson (document : Json) : Except ValidationFault Request :=
  match Schema.request.misfit? Kinds.request source document with
  | some misfit => .error (.misfit misfit)
  | none => .ok ⟨memberText "image" document, memberText "serviceAccountToken" document⟩

def ofText (t : Text) : Except Failure Request := readDocument .requestNotJson ofJson t

/-- The request in bytes, in the encoding that they show. -/
def ofBytes (bs : Bytes) : Except Failure Request :=
  match Encoding.decodeDetected bs with
  | some t => ofText t
  | none => .error (.validation .requestNotJson)

end Request

namespace Response

def document : Json :=
  .object [
    ("kind", .string "CredentialProviderResponse"),
    ("apiVersion", .string "credentialprovider.kubelet.k8s.io/v1"),
    ("cacheKeyType", .string "Registry"),
    ("auth", .null)]

/-- The line that is written as the response. -/
def line : Text := document.write .oneLine ++ "\n"

end Response

end PullAuth
