import PullAuth.Text.Digits

/-!
Addresses of servers. The authority of an address names the server: it ends before the path, the
query or the fragment, and tabs and line ends in it do not count. If it has brackets, its host is an
IPv6 address or one of a later version, and no character in it may stand for one that ends or parts
an authority.
-/
namespace PullAuth.Address

/-- Whether a character does not count in an address. -/
def isPassedOver (c : CodePoint) : Bool := c = '\t' || c = '\r' || c = '\n'

/-- The authority of an address, from which its scheme was taken. -/
def authority (address : Text) : Text :=
  (address.filter fun c => !isPassedOver c).takeWhile fun c => !(c = '/' || c = '?' || c = '#')

/-! ## Numeric addresses -/

/-- Whether the text is a number up to 255 without zeros in front. -/
def isOctet (t : Text) : Bool :=
  1 ≤ t.length && t.length ≤ 3 && t.all CodePoint.isDigit &&
    (t.length = 1 || t.head? ≠ some '0') && Text.digitsValue t ≤ 255

def isDottedQuad (t : Text) : Bool :=
  let octets := Text.split '.' t
  octets.length = 4 && octets.all isOctet

/-- Whether the text is one to four hexadecimal digits, which stand for sixteen bits. -/
def isGroup (t : Text) : Bool :=
  1 ≤ t.length && t.length ≤ 4 && t.all fun c => c.hexValue?.isSome

/-- How many groups of sixteen bits the parts of an address stand for; an IPv4 address may stand in
place of the last two if that is `allowed`. -/
def groupCount? (allowed : Bool) : List Text → Option Nat
  | [] => some 0
  | [part] =>
    if isGroup part then some 1 else if allowed && isDottedQuad part then some 2 else none
  | part :: rest => if isGroup part then (groupCount? allowed rest).map (· + 1) else none

/-- The parts of an address between its colons; an empty text has none. -/
def parts (t : Text) : List Text := if t.isEmpty then [] else Text.split ':' t

/-- Whether the text is an IPv6 address without a zone: eight groups, or fewer where two colons in a
row stand for those that are left out. -/
def isIpv6 (t : Text) : Bool :=
  match Text.cutAt? "::" t with
  | some (head, tail) =>
    match groupCount? false (parts head), groupCount? true (parts tail) with
    | some n, some m => n + m < 8
    | _, _ => false
  | none => groupCount? true (parts t) = some 8

/-- Whether the text is an IPv6 address, perhaps with a zone behind a percent sign. -/
def isZonedIpv6 (t : Text) : Bool :=
  match Text.cut? ('%' : CodePoint) t with
  | some (address, zone) => isIpv6 address && !zone.isEmpty && !zone.contains '%'
  | none => isIpv6 t

/-- Whether the text behind a `v` is the number of a version in hexadecimal digits, a dot and an
address. -/
def isLaterVersion (t : Text) : Bool :=
  match Text.cut? ('.' : CodePoint) t with
  | some (version, address) =>
    !version.isEmpty && version.all (fun c => c.hexValue?.isSome) && !address.isEmpty
  | none => false

/-- Whether the text may stand in brackets. -/
def isBracketable (t : Text) : Bool :=
  match Text.after? "v" t with
  | some rest => isLaterVersion rest
  | none => isZonedIpv6 t

/-! ## Well-formed addresses -/

/-- The text behind the last at sign, which ends the name of a user. -/
def behindUser (t : Text) : Text :=
  match Text.cutLast? ('@' : CodePoint) t with
  | some (_, rest) => rest
  | none => t

/-- The host that an authority names: the text in brackets, or before the port if no bracket opens.
None if text stands before the brackets, or behind them and is no port. -/
def host? (t : Text) : Option Text :=
  let t := behindUser t
  match Text.cut? ('[' : CodePoint) t with
  | some ([], t) =>
    match Text.cut? (']' : CodePoint) t with
    | some (host, port) => if port.isEmpty || port.head? = some ':' then some host else none
    | none => some t
  | some (_ :: _, _) => none
  | none => some (t.takeWhile fun (c : CodePoint) => c ≠ ':')

/-- Whether an authority has no brackets, or has both and names a host that may stand in them. -/
def bracketsFit (t : Text) : Bool :=
  match t.contains '[', t.contains ']' with
  | false, false => true
  | true, true => (host? t).any isBracketable
  | _, _ => false

/-- The characters whose compatible form holds a solidus, a question mark, a number sign, an at sign
or a colon, as of version 14 of Unicode. -/
def disguised : List Nat := [
  0x2047, 0x2048, 0x2049, 0x2100, 0x2101, 0x2105, 0x2106, 0x2A74, 0xFE13, 0xFE16, 0xFE55, 0xFE56,
  0xFE5F, 0xFE6B, 0xFF03, 0xFF0F, 0xFF1A, 0xFF1F, 0xFF20]

def isWellFormed (address : Text) : Bool :=
  let a := authority address
  bracketsFit a && !a.any fun c => disguised.contains c.toNat

end PullAuth.Address
