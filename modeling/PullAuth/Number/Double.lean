/-!
Binary floating point numbers of 64 bits. The non-negative finite numbers are counted upwards from
zero, so a finite number is a sign and a rank; the ranks below 2⁵² are the subnormal numbers. Every
finite number is a whole multiple of 2⁻¹⁰⁷⁴, which makes rounding a matter of natural numbers.
-/
namespace PullAuth

def Double.finiteCount : Nat := 0x7FF0000000000000

/-- A double; `finite` numbers are a sign and a rank among the non-negative ones. -/
inductive Double where
  | notANumber
  | infinite (negative : Bool)
  | finite (negative : Bool) (rank : Fin Double.finiteCount)
  deriving DecidableEq

namespace Double

/-- The quotient rounded to the nearest whole number, a half to the even one. -/
def roundedQuotient (num den : Nat) : Nat :=
  let q := num / den
  let r := num % den
  if 2 * r < den then q else if 2 * r > den then q + 1 else if q % 2 = 0 then q else q + 1

/-- How many ranks have one exponent: 2⁵². -/
def ranksPerExponent : Nat := 0x10000000000000

/-- The number one in units of 2⁻¹⁰⁷⁴. -/
def unitsInOne : Nat := Nat.pow 2 1074

/-- The magnitude of a rank in units of 2⁻¹⁰⁷⁴. -/
def magnitude (rank : Nat) : Nat :=
  if rank < ranksPerExponent then rank
  else (ranksPerExponent + rank % ranksPerExponent) * Nat.pow 2 (rank / ranksPerExponent - 1)

/-- The rank of the double nearest to `num / den` units of 2⁻¹⁰⁷⁴. Ranks from `finiteCount` on
stand for numbers too large to be finite. -/
def nearestRank (num den : Nat) : Nat :=
  let shift := Nat.log2 (num / den) - 52
  shift * ranksPerExponent + roundedQuotient num (den * Nat.pow 2 shift)

/-- The double of a sign and a rank, infinite if the rank is out of range. -/
def ofRank (negative : Bool) (rank : Nat) : Double :=
  if h : rank < finiteCount then finite negative ⟨rank, h⟩ else infinite negative

/-- The rank of the double nearest to `digits * 10 ^ exponent`. Powers of ten that are certainly
out of range are not computed: above 10³⁵⁰ every number is infinite and below 10⁻³⁵⁰ it is zero. -/
def decimalRank (digits : Nat) (exponent : Int) : Nat :=
  if digits = 0 then 0
  else
    let size : Int := (Nat.toDigits 10 digits).length
    if size + exponent > 350 then finiteCount
    else if size + exponent < -350 then 0
    else match exponent with
      | .ofNat e => nearestRank (digits * Nat.pow 10 e * unitsInOne) 1
      | .negSucc e => nearestRank (digits * unitsInOne) (Nat.pow 10 (e + 1))

/-- The double nearest to `digits * 10 ^ exponent`. -/
def ofDecimal (negative : Bool) (digits : Nat) (exponent : Int) : Double :=
  ofRank negative (decimalRank digits exponent)

def isIntegral : Double → Bool
  | finite _ rank => magnitude rank.val % unitsInOne == 0
  | _ => false

def isZero : Double → Bool
  | finite _ rank => rank.val == 0
  | _ => false

end Double

end PullAuth
