import PullAuth.Json.Basic
import PullAuth.Number.Numeral

/-!
Writing JSON texts in ASCII. The characters from the blank to the tilde stand as they are, quotes
and backslashes apart; every other character is escaped by its UTF-16 units or by a letter. Without
an indentation a document is one line with blanks after commas and colons; with one every item
stands on a line of its own.
-/
namespace PullAuth.Json

def unitEscape (unit : Nat) : Text := "\\u" ++ Text.ofHex 4 unit

def escapedChar (c : CodePoint) : Text :=
  if c = '"' then "\\\""
  else if c = '\\' then "\\\\"
  else if c = '\n' then "\\n"
  else if c = '\r' then "\\r"
  else if c = '\t' then "\\t"
  else if c = '\x08' then "\\b"
  else if c = '\x0c' then "\\f"
  else if 0x20 ≤ c.toNat && c.toNat < 0x7F then [c]
  else if c.toNat < 0x10000 then unitEscape c.toNat
  else unitEscape (0xD800 + (c.toNat - 0x10000) / 0x400) ++
    unitEscape (0xDC00 + (c.toNat - 0x10000) % 0x400)

def stringText (t : Text) : Text := "\"" ++ t.flatMap escapedChar ++ "\""

/-- The words for the doubles that are not finite. -/
def doubleNames : Double.SpecialNames := ⟨"NaN", "Infinity"⟩

/-- How a document is laid out: on one line, or with the given indentation for every level. -/
inductive Layout where
  | oneLine
  | indented (step : Text)

namespace Layout

/-- The start of a line at a level. -/
def line : Layout → Nat → Text
  | oneLine, _ => []
  | indented step, level => "\n" ++ (List.replicate level step).flatten

/-- What stands between two items. -/
def separator : Layout → Nat → Text
  | oneLine, _ => ", "
  | indented step, level => "," ++ line (indented step) level

end Layout

mutual

def writeAt (layout : Layout) (level : Nat) : Json → Text
  | null => "null"
  | bool true => "true"
  | bool false => "false"
  | int value => Text.ofInt value
  | double value => value.toText doubleNames
  | string value => stringText value
  | array [] => "[]"
  | array (item :: rest) =>
    "[" ++ layout.line (level + 1) ++ writeAt layout (level + 1) item ++
      writeItems layout (level + 1) rest ++ layout.line level ++ "]"
  | object [] => "\x7b\x7d"
  | object ((key, value) :: rest) =>
    "\x7b" ++ layout.line (level + 1) ++ stringText key ++ ": " ++
      writeAt layout (level + 1) value ++ writeMembers layout (level + 1) rest ++
      layout.line level ++ "\x7d"

def writeItems (layout : Layout) (level : Nat) : List Json → Text
  | [] => []
  | item :: rest =>
    layout.separator level ++ writeAt layout level item ++ writeItems layout level rest

def writeMembers (layout : Layout) (level : Nat) : List (Text × Json) → Text
  | [] => []
  | (key, value) :: rest =>
    layout.separator level ++ stringText key ++ ": " ++ writeAt layout level value ++
      writeMembers layout level rest

end

def write (layout : Layout) (value : Json) : Text := writeAt layout 0 value

end PullAuth.Json
