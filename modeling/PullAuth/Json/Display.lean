import PullAuth.Json.Basic
import PullAuth.Number.Numeral
import PullAuth.Text.Quoted

/-!
The spelling of JSON values in messages: texts in quotes, capital words for `null` and the truth
values, and doubles as in documents but for the names of those that are not finite.
-/
namespace PullAuth.Json

/-- The words in messages for the doubles that are not finite. -/
def displayNames : Double.SpecialNames := ⟨"nan", "inf"⟩

mutual

def display : Json → Text
  | null => "None"
  | bool true => "True"
  | bool false => "False"
  | int value => Text.ofInt value
  | double value => value.toText displayNames
  | string value => Text.quoted value
  | array [] => "[]"
  | array (item :: rest) => "[" ++ display item ++ displayItems rest ++ "]"
  | object [] => "\x7b\x7d"
  | object ((key, value) :: rest) =>
    "\x7b" ++ Text.quoted key ++ ": " ++ display value ++ displayMembers rest ++ "\x7d"

def displayItems : List Json → Text
  | [] => []
  | item :: rest => ", " ++ display item ++ displayItems rest

def displayMembers : List (Text × Json) → Text
  | [] => []
  | (key, value) :: rest =>
    ", " ++ Text.quoted key ++ ": " ++ display value ++ displayMembers rest

end

/-- The spelling of a value where a string stands for itself. -/
def spelled : Json → Text
  | string value => value
  | value => value.display

end PullAuth.Json
