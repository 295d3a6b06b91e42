import PullAuth.Text.Utf8

/-!
The encoding of a JSON text given as bytes. A byte order mark names it; without one the zero
bytes among the first four tell UTF-16 and UTF-32 apart from UTF-8, because a JSON text starts
with ASCII characters. Surrogates are taken as they are encoded.
-/
namespace PullAuth

/-- An encoding of Unicode text, with the order of the bytes in a unit. -/
inductive Encoding where
  | utf8
  | utf16 (bigEndian : Bool)
  | utf32 (bigEndian : Bool)
  deriving DecidableEq

namespace Encoding

/-- The byte order marks, a longer one before the one that it begins with. -/
def marks : List (Bytes × Encoding) :=
  [([0x00, 0x00, 0xFE, 0xFF], utf32 true), ([0xFF, 0xFE, 0x00, 0x00], utf32 false),
    ([0xFE, 0xFF], utf16 true), ([0xFF, 0xFE], utf16 false), ([0xEF, 0xBB, 0xBF], utf8)]

/-- The encoding that the zeros among the first bytes tell. -/
def ofZeros : Bytes → Encoding
  | [a, b] => if a = 0 then utf16 true else if b = 0 then utf16 false else utf8
  | a :: b :: c :: d :: _ =>
    if a = 0 then (if b = 0 then utf32 true else utf16 true)
    else if b = 0 then (if c = 0 && d = 0 then utf32 false else utf16 false)
    else utf8
  | _ => utf8

/-- The encoding of the bytes, and the bytes without their byte order mark. -/
def detect (bs : Bytes) : Encoding × Bytes :=
  match marks.find? fun mark => mark.1.isPrefixOf bs with
  | some (mark, encoding) => (encoding, bs.drop mark.length)
  | none => (ofZeros bs, bs)

/-- The two byte units of the bytes. -/
def units16 (bigEndian : Bool) : Bytes → Option (List CodePoint)
  | [] => some []
  | [_] => none
  | a :: b :: rest => do
    let n := if bigEndian then a.toNat * 0x100 + b.toNat else b.toNat * 0x100 + a.toNat
    let c ← CodePoint.ofNat? n
    return c :: (← units16 bigEndian rest)

/-- The text of UTF-16 units: pairs of surrogates are joined, lone ones stay. -/
def joinSurrogates : List CodePoint → Text
  | [] => []
  | [c] => [c]
  | c :: d :: rest =>
    if c.isHighSurrogate && d.isLowSurrogate then .ofSurrogates c d :: joinSurrogates rest
    else c :: joinSurrogates (d :: rest)

/-- The code points that units of four bytes number. -/
def units32 (bigEndian : Bool) : Bytes → Option Text
  | [] => some []
  | a :: b :: c :: d :: rest => do
    let n :=
      if bigEndian then ((a.toNat * 0x100 + b.toNat) * 0x100 + c.toNat) * 0x100 + d.toNat
      else ((d.toNat * 0x100 + c.toNat) * 0x100 + b.toNat) * 0x100 + a.toNat
    let p ← CodePoint.ofNat? n
    return p :: (← units32 bigEndian rest)
  | _ => none

def decode : Encoding → Bytes → Option Text
  | utf8, bs => Utf8.decode .lenient bs
  | utf16 bigEndian, bs => (units16 bigEndian bs).map joinSurrogates
  | utf32 bigEndian, bs => units32 bigEndian bs

/-- The text of bytes in the encoding that they show. -/
def decodeDetected (bs : Bytes) : Option Text :=
  let (encoding, body) := detect bs
  encoding.decode body

end Encoding

end PullAuth
