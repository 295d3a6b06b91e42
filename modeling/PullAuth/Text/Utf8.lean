import PullAuth.Bytes.Basic

/-!
UTF-8. A code point is written in one to four bytes; readings and writings differ only in what
they do with surrogates and with bytes that belong to no sequence. The strict reading refuses
both. The keeping one turns every stray byte into the surrogate U+DC00 plus the byte, and its
writing turns such a surrogate back into the byte, so any byte string can be read and written
back unchanged. The lenient reading takes surrogates as they are encoded.
-/
namespace PullAuth.Utf8

/-- The bytes of a code point, a surrogate treated like any other. -/
def sequence (c : CodePoint) : Bytes :=
  let n := c.toNat
  if n < 0x80 then [.ofNat n]
  else if n < 0x800 then [.ofNat (0xC0 + n / 0x40), .ofNat (0x80 + n % 0x40)]
  else if n < 0x10000 then
    [.ofNat (0xE0 + n / 0x1000), .ofNat (0x80 + n / 0x40 % 0x40), .ofNat (0x80 + n % 0x40)]
  else
    [.ofNat (0xF0 + n / 0x40000), .ofNat (0x80 + n / 0x1000 % 0x40),
      .ofNat (0x80 + n / 0x40 % 0x40), .ofNat (0x80 + n % 0x40)]

/-- The six bits of a continuation byte. -/
def tail? (b : UInt8) : Option Nat :=
  if 0x80 ≤ b.toNat && b.toNat < 0xC0 then some (b.toNat - 0x80) else none

/-- The code point that the bytes begin with and the number of its bytes. Overlong forms and
numbers past U+10FFFF are refused; surrogates only if `surrogates` is false. -/
def first? (surrogates : Bool) : Bytes → Option (CodePoint × Nat)
  | [] => none
  | a :: rest =>
    let n := a.toNat
    if n < 0x80 then (CodePoint.ofNat? n).map (·, 1)
    else if 0xC2 ≤ n && n < 0xE0 then
      match rest with
      | b :: _ => do
        let x ← tail? b
        let c ← CodePoint.ofNat? ((n - 0xC0) * 0x40 + x)
        return (c, 2)
      | _ => none
    else if 0xE0 ≤ n && n < 0xF0 then
      match rest with
      | b :: d :: _ => do
        let x ← tail? b
        let y ← tail? d
        let c ← CodePoint.ofNat? ((n - 0xE0) * 0x1000 + x * 0x40 + y)
        if c.toNat < 0x800 || (c.isSurrogate && !surrogates) then none else return (c, 3)
      | _ => none
    else if 0xF0 ≤ n && n < 0xF5 then
      match rest with
      | b :: d :: e :: _ => do
        let x ← tail? b
        let y ← tail? d
        let z ← tail? e
        let c ← CodePoint.ofNat? ((n - 0xF0) * 0x40000 + x * 0x1000 + y * 0x40 + z)
        if c.toNat < 0x10000 then none else return (c, 4)
      | _ => none
    else none

/-- What a reading makes of surrogates and of stray bytes. -/
structure Reading where
  /-- Whether encoded surrogates are taken. -/
  surrogates : Bool
  /-- What a byte outside every sequence becomes, if the reading goes on at all. -/
  stray : UInt8 → Option CodePoint

def Reading.strict : Reading := ⟨false, fun _ => none⟩

/-- The surrogate that keeps a stray byte. -/
def kept (b : UInt8) : CodePoint := ⟨0xDC00 + b.toNat, by have h := b.toNat_lt; omega⟩

/-- The reading that keeps every stray byte as a surrogate. -/
def Reading.keeping : Reading := ⟨false, fun b => some (kept b)⟩

/-- The reading that takes encoded surrogates and refuses stray bytes. -/
def Reading.lenient : Reading := ⟨true, fun _ => none⟩

/-- Reads the bytes after the first `skip`, which belong to a sequence already read. -/
def decodeFrom (reading : Reading) : Nat → Bytes → Option Text
  | _, [] => some []
  | skip + 1, _ :: rest => decodeFrom reading skip rest
  | 0, b :: rest =>
    match first? reading.surrogates (b :: rest) with
    | some (c, n) => (decodeFrom reading (n - 1) rest).map (c :: ·)
    | none =>
      match reading.stray b with
      | some c => (decodeFrom reading 0 rest).map (c :: ·)
      | none => none

def decode (reading : Reading) (bs : Bytes) : Option Text := decodeFrom reading 0 bs

/-- The keeping reading reads every byte string. -/
theorem decodeFrom_keeping (skip : Nat) (bs : Bytes) :
    (decodeFrom .keeping skip bs).isSome = true := by
  induction bs generalizing skip with
  | nil => simp [decodeFrom]
  | cons b rest ih =>
    cases skip with
    | succ n => exact ih n
    | zero =>
      unfold decodeFrom
      split
      · simp [ih]
      · simp only [Reading.keeping]
        simpa [Reading.keeping] using ih 0

/-- The bytes of a text without surrogates. -/
def encode? : Text → Option Bytes
  | [] => some []
  | c :: t => if c.isSurrogate then none else (encode? t).map (sequence c ++ ·)

/-- The byte that a surrogate keeps, if it keeps one. -/
def keptByte? (c : CodePoint) : Option UInt8 :=
  if 0xDC80 ≤ c.toNat && c.toNat < 0xDD00 then some (.ofNat (c.toNat - 0xDC00)) else none

/-- The bytes of a text whose surrogates all keep a byte. -/
def encodeKept? : Text → Option Bytes
  | [] => some []
  | c :: t =>
    match keptByte? c with
    | some b => (encodeKept? t).map (b :: ·)
    | none => if c.isSurrogate then none else (encodeKept? t).map (sequence c ++ ·)

end PullAuth.Utf8
