import PullAuth.Bytes.Base64Url
import PullAuth.Json.Printer

/-!
Writing tokens: a header, the claims and the bytes of a signature as segments between dots. JSON
texts are ASCII, so every character of a segment's document is one byte.
-/
namespace PullAuth.Token

def segment (document : Json) : Text :=
  Base64Url.encode (Bytes.ofAscii (document.write .oneLine))

def compose (header claims : Json) (signature : Bytes) : Text :=
  Text.join "." [segment header, segment claims, Base64Url.encode signature]

end PullAuth.Token
