import PullAuth.Bytes.Basic

/-!
Base64 with the standard alphabet, read strictly: no character outside the alphabet is passed over
and nothing may follow the padding. Padding beyond what the last quad needs is taken only where
the quads before it are complete. Bits left over in an incomplete quad are dropped.
-/
namespace PullAuth.Base64

/-- The character of a value below 64. -/
def digit (n : Nat) : CodePoint :=
  if n < 26 then .ofChar (Char.ofNat (0x41 + n))
  else if n < 52 then .ofChar (Char.ofNat (0x61 + (n - 26)))
  else if n < 62 then .ofChar (Char.ofNat (0x30 + (n - 52)))
  else if n = 62 then '+'
  else '/'

def value? (c : CodePoint) : Option Nat :=
  let n := c.toNat
  if 0x41 ≤ n && n ≤ 0x5A then some (n - 0x41)
  else if 0x61 ≤ n && n ≤ 0x7A then some (n - 0x61 + 26)
  else if 0x30 ≤ n && n ≤ 0x39 then some (n - 0x30 + 52)
  else if n = 0x2B then some 62
  else if n = 0x2F then some 63
  else none

/-- The characters of the values stand for them. -/
theorem value?_digit : ∀ n < 64, value? (digit n) = some n := by decide

theorem value?_pad : value? '=' = none := by decide

/-- The padded text of the bytes. -/
def encode : Bytes → Text
  | [] => []
  | [a] => [digit (a.toNat / 4), digit (a.toNat % 4 * 16), '=', '=']
  | [a, b] =>
    [digit (a.toNat / 4), digit (a.toNat % 4 * 16 + b.toNat / 16), digit (b.toNat % 16 * 4), '=']
  | a :: b :: c :: rest =>
    digit (a.toNat / 4) :: digit (a.toNat % 4 * 16 + b.toNat / 16) ::
      digit (b.toNat % 16 * 4 + c.toNat / 64) :: digit (c.toNat % 64) :: encode rest

/-- Why a text is not base64. -/
inductive Fault where
  /-- It holds a character outside ASCII. -/
  | notAscii
  /-- It begins with padding. -/
  | leadingPadding
  /-- It goes on after the padding that completes it. -/
  | excessData
  /-- It holds an ASCII character outside the alphabet. -/
  | foreignCharacter
  /-- Its padding is followed by data. -/
  | brokenPadding
  /-- Its last quad has one character; `count` characters are data. -/
  | lonelyCharacter (count : Nat)
  /-- Its last quad is not filled. -/
  | missingPadding
  deriving DecidableEq

def Fault.message : Fault → Text
  | notAscii => "string argument should contain only ASCII characters"
  | leadingPadding => "Leading padding not allowed"
  | excessData => "Excess data after padding"
  | foreignCharacter => "Only base64 data is allowed"
  | brokenPadding => "Discontinuous padding not allowed"
  | lonelyCharacter count =>
    "Invalid base64-encoded string: number of data characters (" ++ Text.ofNat count ++
      ") cannot be 1 more than a multiple of 4"
  | missingPadding => "Incorrect padding"

/-- Where the reading stands: the number of data characters so far, the bits of the last one that
belong to the next byte, the padding characters that count, and whether any padding was seen. -/
structure Progress where
  count : Nat := 0
  bits : Nat := 0
  pads : Nat := 0
  padded : Bool := false

/-- The bytes that a data character of value `n` completes, and the reading after it. -/
def Progress.take (p : Progress) (n : Nat) : Bytes × Progress :=
  let next (bits : Nat) : Progress := ⟨p.count + 1, bits, 0, p.padded⟩
  match p.count % 4 with
  | 0 => ([], next n)
  | 1 => ([.ofNat (p.bits * 4 + n / 16)], next (n % 16))
  | 2 => ([.ofNat (p.bits * 16 + n / 4)], next (n % 4))
  | _ => ([.ofNat (p.bits * 64 + n)], next 0)

/-- The bytes of the rest of a text. -/
def decodeFrom (p : Progress) : Text → Except Fault Bytes
  | [] =>
    match p.count % 4 with
    | 0 => .ok []
    | 1 => .error (.lonelyCharacter p.count)
    | _ => .error .missingPadding
  | c :: t =>
    if c = '=' then
      let quad := p.count % 4
      if 2 ≤ quad then
        if 4 ≤ quad + (p.pads + 1) then
          if t.isEmpty then .ok [] else .error .excessData
        else decodeFrom ⟨p.count, p.bits, p.pads + 1, true⟩ t
      else decodeFrom ⟨p.count, p.bits, p.pads, true⟩ t
    else match value? c with
      | none => .error .foreignCharacter
      | some n =>
        if p.padded then .error .brokenPadding
        else
          let (bytes, p) := p.take n
          match decodeFrom p t with
          | .ok rest => .ok (bytes ++ rest)
          | .error fault => .error fault

def decode (t : Text) : Except Fault Bytes :=
  if t.any fun c => 0x80 ≤ c.toNat then .error .notAscii
  else match t with
    | [] => .ok []
    | c :: _ => if c = '=' then .error .leadingPadding else decodeFrom ⟨0, 0, 0, false⟩ t

end PullAuth.Base64
