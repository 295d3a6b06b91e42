import PullAuth.Keyed
import PullAuth.Number.Double

/-!
TOML values, as version 1.0.0 of the format defines them.
-/
namespace PullAuth

/-- A date, a time of day or both, with the offset from universal time if it is told. -/
structure Toml.Moment where
  /-- Year, month and day. -/
  date : Option (Nat × Nat × Nat)
  /-- Hour, minute, second and microsecond. -/
  time : Option (Nat × Nat × Nat × Nat)
  /-- Minutes ahead of universal time. -/
  offset : Option Int

/-- A TOML value. -/
inductive Toml where
  | string (value : Text)
  | integer (value : Int)
  | float (value : Double)
  | boolean (value : Bool)
  | moment (value : Toml.Moment)
  | array (items : List Toml)
  | table (members : List (Text × Toml))

namespace Toml

instance : Inhabited Toml := ⟨table []⟩

/-- Why bytes are no TOML document. -/
inductive Fault where
  | undecodable
  /-- The text breaks the grammar, or defines a key twice. -/
  | malformed
  /-- A decimal integer has more than 4300 digits. -/
  | integerTooLong
  /-- Values are nested deeper than there is room for. -/
  | tooDeep
  deriving DecidableEq

def isContainer : Toml → Bool
  | array _ => true
  | table _ => true
  | _ => false

end Toml

end PullAuth
