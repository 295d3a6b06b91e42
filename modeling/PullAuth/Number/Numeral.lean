import PullAuth.Number.Shortest

/-!
The written form of doubles. The shortest decimal that reads back is written positionally while
its leading digit stands for 10⁻⁴ to 10¹⁵, always with a point, and otherwise with an exponent of
a sign and at least two digits.
-/
namespace PullAuth.Double

/-- The significant digits without trailing zeros, and the power of ten just above the leading
digit. -/
def significant (d : Decimal) : Text × Int :=
  let ds := Text.ofNat d.digits
  let kept := Text.trimEnd (· = '0') ds
  (if kept.isEmpty then "0" else kept, ds.length + d.exponent)

/-- The exponent of ten with its sign, in two digits at least. -/
def exponentText (e : Int) : Text :=
  let ds := Text.ofNat e.natAbs
  (if e < 0 then "e-" else "e+") ++ List.replicate (2 - ds.length) (CodePoint.ofChar '0') ++ ds

/-- The digits laid out with their point: the leading digit stands for `10 ^ (point - 1)`. -/
def layOut (ds : Text) (point : Int) : Text :=
  if -4 < point ∧ point ≤ 16 then
    match point with
    | .ofNat 0 => "0." ++ ds
    | .negSucc k => "0." ++ List.replicate (k + 1) (CodePoint.ofChar '0') ++ ds
    | .ofNat n =>
      let whole := ds.take n ++ List.replicate (n - ds.length) (CodePoint.ofChar '0')
      let part := ds.drop n
      whole ++ "." ++ (if part.isEmpty then ("0" : Text) else part)
  else
    let part := ds.drop 1
    ds.take 1 ++ (if part.isEmpty then ([] : Text) else "." ++ part) ++ exponentText (point - 1)

/-- The digits of a finite double without its sign. -/
def rankText (rank : Nat) : Text :=
  if rank = 0 then "0.0"
  else
    let (ds, point) := significant (shortest rank)
    layOut ds point

/-- The spellings of the doubles that are not finite. -/
structure SpecialNames where
  notANumber : Text
  infinite : Text

/-- A double as text. -/
def toText (names : SpecialNames) : Double → Text
  | notANumber => names.notANumber
  | infinite negative => (if negative then ("-" : Text) else []) ++ names.infinite
  | finite negative rank => (if negative then ("-" : Text) else []) ++ rankText rank.val

end PullAuth.Double
