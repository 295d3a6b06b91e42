import PullAuth.Text.Basic

/-!
Byte strings and their hexadecimal spelling.
-/
namespace PullAuth

/-- A byte string. -/
abbrev Bytes := List UInt8

namespace Bytes

/-- The bytes of a text of ASCII, one for every character. -/
def ofAscii (t : Text) : Bytes := t.map fun c => .ofNat c.toNat

/-- Two lower case hexadecimal digits for every byte. -/
def toHex (bs : Bytes) : Text :=
  bs.flatMap fun b => [.hexDigit (b.toNat / 16), .hexDigit (b.toNat % 16)]

/-- The bytes that pairs of hexadecimal digits spell. -/
def ofHex? : Text → Option Bytes
  | [] => some []
  | [_] => none
  | a :: b :: rest =>
    match a.hexValue?, b.hexValue?, ofHex? rest with
    | some x, some y, some bs => some (.ofNat (16 * x + y) :: bs)
    | _, _, _ => none

/-- Every value below sixteen is read back from its digit. -/
theorem hexValue?_hexDigit : ∀ n < 16, (CodePoint.hexDigit n).hexValue? = some n := by decide

theorem length_toHex (bs : Bytes) : (toHex bs).length = 2 * bs.length := by
  induction bs with
  | nil => rfl
  | cons b rest ih =>
    simp only [toHex, List.flatMap_cons, List.length_append, List.length_cons,
      List.length_nil] at ih ⊢
    omega

/-- Bytes are read back from their hexadecimal spelling. -/
theorem ofHex?_toHex (bs : Bytes) : ofHex? (toHex bs) = some bs := by
  induction bs with
  | nil => rfl
  | cons b rest ih =>
    have hb := b.toNat_lt
    have high := hexValue?_hexDigit (b.toNat / 16) (by omega)
    have low := hexValue?_hexDigit (b.toNat % 16) (by omega)
    have e : 16 * (b.toNat / 16) + b.toNat % 16 = b.toNat := by omega
    have ih' : ofHex? (rest.flatMap fun b => [.hexDigit (b.toNat / 16), .hexDigit (b.toNat % 16)])
        = some rest := ih
    simp [toHex, ofHex?, high, low, ih', e]

end Bytes

end PullAuth
