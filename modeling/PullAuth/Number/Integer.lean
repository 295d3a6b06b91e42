import PullAuth.Text.Digits

/-!
Whole numbers as people write them: blanks may stand around, a sign in front, and single underscores
between the digits, which may be of any script.
-/
namespace PullAuth.Integer

/-- The blanks that may stand around a number: those of ASCII without its separators, and those
beyond ASCII. -/
def isAround (c : CodePoint) : Bool :=
  c.isBlank && (c.toNat ≤ 0x0D || c.toNat == 0x20 || 0x7F < c.toNat)

/-- The number of digits with single underscores between them, and how many digits there are. -/
def readDigits? (t : Text) : Option (Nat × Nat) :=
  let groups := Text.split '_' t
  if groups.any List.isEmpty then none
  else (groups.flatten.mapM CodePoint.decimalValue?).map fun values =>
    (values.foldl (fun n v => 10 * n + v) 0, values.length)

def digitLimit : Nat := 4300

/-- The number that a text writes. -/
def read? (t : Text) : Option Int :=
  let signed := Text.trim isAround t
  let (negative, digits) := match signed with
    | c :: rest =>
      if c = '-' then (true, rest) else if c = '+' then (false, rest) else (false, signed)
    | [] => (false, signed)
  match readDigits? digits with
  | some (n, count) =>
    if digitLimit < count then none else some (if negative then -(n : Int) else n)
  | none => none

end PullAuth.Integer
