import PullAuth.Text.Printable

/-!
The quoted spelling of a text in messages. Quotes are single unless the text holds a single quote
and no double one. The quote in use and the backslash are escaped, and so is every character that
cannot be shown.
-/
namespace PullAuth.Text

/-- The quote that stands around `t`. -/
def quoteMark (t : Text) : CodePoint :=
  if t.contains ('\'' : CodePoint) && !t.contains ('"' : CodePoint) then '"' else '\''

/-- A character between quotes. -/
def quotedChar (mark c : CodePoint) : Text :=
  if c = mark || c = '\\' then ['\\', c]
  else if c = '\n' then "\\n"
  else if c = '\r' then "\\r"
  else if c = '\t' then "\\t"
  else if c.isPrintable then [c]
  else if c.toNat < 0x100 then "\\x" ++ ofHex 2 c.toNat
  else if c.toNat < 0x10000 then "\\u" ++ ofHex 4 c.toNat
  else "\\U" ++ ofHex 8 c.toNat

/-- `t` between quotes. -/
def quoted (t : Text) : Text :=
  let mark := quoteMark t
  mark :: t.flatMap (quotedChar mark) ++ [mark]

/-- `t` between quotes, or the word for a missing text. -/
def quotedOption : Option Text → Text
  | some t => quoted t
  | none => "None"

end PullAuth.Text
