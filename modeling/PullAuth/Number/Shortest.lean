import PullAuth.Number.Double
import PullAuth.Text.Basic

/-!
The shortest decimal that reads back as a given double. For one digit, two digits and so on, the
two decimals with that many digits next to the number are tried; the first count with a decimal
that reads back wins, and of two such decimals the nearer one, on a tie the even one.
-/
namespace PullAuth.Double

/-- A positive decimal number: `digits * 10 ^ exponent`. -/
structure Decimal where
  digits : Nat
  exponent : Int
  deriving DecidableEq

/-- The least `e` with `num / den < 10 ^ e`, found by counting from an estimate that is too low. -/
def decimalSizeFrom (num den : Nat) : Nat → Int → Int
  | 0, e => e
  | fuel + 1, e =>
    let below : Bool := match e with
      | .ofNat k => num < den * Nat.pow 10 k
      | .negSucc k => num * Nat.pow 10 (k + 1) < den
    if below then e else decimalSizeFrom num den fuel (e + 1)

/-- The least power of ten above the number of the given rank. -/
def decimalSize (rank : Nat) : Int :=
  let m := magnitude rank
  let bits : Int := Nat.log2 m - 1074
  decimalSizeFrom m unitsInOne 8 (bits * 30103 / 100000 - 1)

/-- The number of the given rank divided by `10 ^ exponent`: its whole part, and how twice the
rest compares with one. -/
def scaled (rank : Nat) (exponent : Int) : Nat × Ordering :=
  let (num, den) := match exponent with
    | .ofNat k => (magnitude rank, unitsInOne * Nat.pow 10 k)
    | .negSucc k => (magnitude rank * Nat.pow 10 (k + 1), unitsInOne)
  (num / den, compare (2 * (num % den)) den)

/-- The decimal on the grid of `10 ^ exponent` that reads back as the given rank, if one of the
two next to the number does. -/
def onGrid? (rank : Nat) (exponent : Int) : Option Decimal :=
  let (low, half) := scaled rank exponent
  let reads (d : Nat) : Bool := decimalRank d exponent == rank
  let preferHigh := match half with
    | .lt => false
    | .gt => true
    | .eq => low % 2 == 1
  if preferHigh then
    if reads (low + 1) then some ⟨low + 1, exponent⟩
    else if reads low then some ⟨low, exponent⟩ else none
  else if reads low then some ⟨low, exponent⟩
  else if reads (low + 1) then some ⟨low + 1, exponent⟩ else none

/-- The decimal with the fewest digits, from `count` on, that reads back as the given rank. When
none does within the fuel, the exact value serves. -/
def shortestFrom (rank : Nat) (size : Int) : Nat → Nat → Decimal
  | 0, _ => ⟨magnitude rank * Nat.pow 5 1074, -1074⟩
  | fuel + 1, count =>
    match onGrid? rank (size - count) with
    | some d => d
    | none => shortestFrom rank size fuel (count + 1)

/-- The decimal with the fewest digits that reads back as the given rank. Seventeen digits always
do. -/
def shortest (rank : Nat) : Decimal := shortestFrom rank (decimalSize rank) 17 1

end PullAuth.Double
