import PullAuth.Text.Basic

/-!
Blank characters: the code points whose bidirectional class or category makes them white space
in Unicode, the separators of ASCII among them.
-/
namespace PullAuth.CodePoint

/-- White space of Unicode, the information separators of ASCII included. -/
def isBlank (c : CodePoint) : Bool :=
  let n := c.toNat
  (0x09 ≤ n && n ≤ 0x0D) || (0x1C ≤ n && n ≤ 0x20) || n == 0x85 || n == 0xA0 || n == 0x1680 ||
    (0x2000 ≤ n && n ≤ 0x200A) || n == 0x2028 || n == 0x2029 || n == 0x202F || n == 0x205F ||
    n == 0x3000

/-- The two characters that end a line. -/
def isLineEnd (c : CodePoint) : Bool := c.toNat == 0x0A || c.toNat == 0x0D

/-- White space inside a line. -/
def isInlineBlank (c : CodePoint) : Bool := c.isBlank && !c.isLineEnd

end PullAuth.CodePoint
