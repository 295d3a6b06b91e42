import PullAuth.Bytes.Base64

/-!
Base64 with the alphabet for URLs, as the segments of a token are written. Padding may be missing;
where it stands it is complete. Bits left over in the last character are zero, so that every byte
string has one text without padding.
-/
namespace PullAuth.Base64Url

def value? (b : UInt8) : Option Nat :=
  if b.toNat = 0x2D then some 62
  else if b.toNat = 0x5F then some 63
  else if b.toNat = 0x2B || b.toNat = 0x2F then none
  else Base64.value? (.ofByte b)

/-- The bytes of the values of the characters. -/
def assemble : List Nat → Option Bytes
  | [] => some []
  | [_] => none
  | [a, b] => if b % 16 = 0 then some [.ofNat (a * 4 + b / 16)] else none
  | [a, b, c] =>
    if c % 4 = 0 then some [.ofNat (a * 4 + b / 16), .ofNat (b % 16 * 16 + c / 4)] else none
  | a :: b :: c :: d :: rest =>
    (assemble rest).map
      ([.ofNat (a * 4 + b / 16), .ofNat (b % 16 * 16 + c / 4), .ofNat (c % 4 * 64 + d)] ++ ·)

/-- A character of the standard alphabet in the alphabet for URLs. -/
def ofStandard (c : CodePoint) : CodePoint :=
  if c = '+' then '-' else if c = '/' then '_' else c

/-- The text of the bytes, without padding. -/
def encode (bs : Bytes) : Text := (Text.trimEnd (· = '=') (Base64.encode bs)).map ofStandard

def decode? (segment : Bytes) : Option Bytes :=
  let body := (segment.reverse.dropWhile (· = 0x3D)).reverse
  let pads := segment.length - body.length
  if 2 < pads || (0 < pads && segment.length % 4 ≠ 0) then none
  else (body.mapM value?).bind assemble

end PullAuth.Base64Url
