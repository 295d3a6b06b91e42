import PullAuth.Text.Blank
import PullAuth.Text.Utf8

/-!
Environment files: a variable and its value on every line. A value stands between quotes, where it
may go on over several lines, or takes the rest of its line up to a comment. A line that cannot be
read is passed over and the reading goes on behind it.
-/
namespace PullAuth.EnvFile

/-- A variable and its value; the value is missing where no equals sign follows the name. -/
abbrev Binding := Text × Option Text

/-- What stands in a file, one after the other. A value that goes on over several lines makes them
one. -/
inductive Line where
  | binding (binding : Binding)
  | comment
  /-- It cannot be read. -/
  | unreadable
  deriving DecidableEq

/-- What was read and the rest of the text, or the text at which the reading failed. -/
abbrev Reading (α : Type) := Except Text (α × Text)

/-- The text behind blanks in the same line. -/
def skipBlanks (t : Text) : Text := t.dropWhile CodePoint.isInlineBlank

/-- The text from the end of the line on. -/
def skipToLineEnd (t : Text) : Text := t.dropWhile fun c => !c.isLineEnd

def skipLine (t : Text) : Text := (skipToLineEnd t).drop 1

/-- The text behind the word `export` and blanks, if it begins with them. -/
def skipExport (t : Text) : Text :=
  match Text.after? "export" t with
  | some (c :: rest) => if c.isInlineBlank then skipBlanks rest else t
  | _ => t

/-! ## Names -/

def isNameChar (c : CodePoint) : Bool := !(c = '=' || c = '#' || c.isBlank)

/-- The name of a variable: between single quotes, or up to a blank, an equals or a number sign. A
line that begins with a number sign has none. -/
def readName (t : Text) : Reading (Option Text) :=
  match t with
  | [] => .error t
  | c :: rest =>
    if c = '#' then .ok (none, t)
    else if c = '\'' then
      match Text.cut? ('\'' : CodePoint) rest with
      | some (name, rest) => if name.isEmpty then .error t else .ok (some name, rest)
      | none => .error t
    else
      let (name, rest) := t.span isNameChar
      if name.isEmpty then .error t else .ok (some name, rest)

/-! ## Values -/

/-- What a backslash and `c` stand for between single quotes, if they are an escape. -/
def singleEscape? (c : CodePoint) : Option CodePoint :=
  if c = '\\' || c = '\'' then some c else none

/-- What a backslash and `c` stand for between double quotes, if they are an escape. -/
def doubleEscape? (c : CodePoint) : Option CodePoint :=
  if c = '\\' || c = '\'' || c = '"' then some c
  else if c = 'a' then some '\x07'
  else if c = 'b' then some '\x08'
  else if c = 'f' then some '\x0c'
  else if c = 'n' then some '\n'
  else if c = 'r' then some '\r'
  else if c = 't' then some '\t'
  else if c = 'v' then some '\x0b'
  else none

/-- The value up to the closing mark, with its escapes resolved, and what follows the mark. A
backslash and the character behind it belong together: a mark behind one does not close the value,
and both stay where they are no escape. -/
def readQuoted (mark : CodePoint) (escape? : CodePoint → Option CodePoint) :
    Text → Option (Text × Text)
  | [] => none
  | [c] => if c = mark then some ([], []) else none
  | c :: e :: t =>
    if c = mark then some ([], e :: t)
    else if c = '\\' then
      (readQuoted mark escape? t).map fun (value, rest) =>
        ((match escape? e with | some meant => [meant] | none => [c, e]) ++ value, rest)
    else (readQuoted mark escape? (e :: t)).map fun (value, rest) => (c :: value, rest)

/-- A line up to the first number sign that follows a blank. -/
def beforeComment : Text → Text
  | [] => []
  | c :: t => if c.isBlank && t.head? = some '#' then [] else c :: beforeComment t

/-- The value behind an equals sign. A number sign makes it empty if blanks stand before it. -/
def readValue (t : Text) : Reading Text :=
  match skipBlanks t with
  | [] => .ok ([], [])
  | c :: rest =>
    if c = '\'' then
      match readQuoted '\'' singleEscape? rest with
      | some found => .ok found
      | none => .error (c :: rest)
    else if c = '"' then
      match readQuoted '"' doubleEscape? rest with
      | some found => .ok found
      | none => .error (c :: rest)
    else if c = '#' && t.head? ≠ some '#' then .ok ([], c :: rest)
    else
      let (line, rest) := (c :: rest).span fun c => !c.isLineEnd
      .ok (Text.trimEnd CodePoint.isBlank (beforeComment line), rest)

/-- The value of a variable, if an equals sign comes first. -/
def readAssigned (t : Text) : Reading (Option Text) :=
  match t with
  | [] => .ok (none, [])
  | c :: rest =>
    if c = '=' then
      match readValue rest with
      | .ok (value, rest) => .ok (some value, rest)
      | .error rest => .error rest
    else .ok (none, t)

/-! ## Lines -/

/-- The text behind the end of a line, before which blanks and a comment may stand. -/
def readLineEnd (t : Text) : Except Text Text :=
  match skipBlanks t with
  | [] => .ok []
  | c :: rest =>
    if c = '#' then .ok (skipLine rest)
    else if c.isLineEnd then .ok rest
    else .error (c :: rest)

/-- The line that the text begins with: a binding, or a comment where there is no name. -/
def readLine (t : Text) : Except Text (Line × Text) := do
  let (name, t) ← readName (skipExport t)
  let (value, t) ← readAssigned (skipBlanks t)
  let t ← readLineEnd t
  return (match name with | some name => .binding (name, value) | none => .comment, t)

/-- The lines of a text. Every reading takes a character, so the length of the text bounds their
number. -/
def readLines : Nat → Text → List Line
  | 0, _ => []
  | fuel + 1, t =>
    match t.dropWhile CodePoint.isBlank with
    | [] => []
    | c :: rest =>
      match readLine (c :: rest) with
      | .ok (line, rest) => line :: readLines fuel rest
      | .error rest => .unreadable :: readLines fuel (skipLine rest)

/-- The binding of a line, if it has one. -/
def Line.binding? : Line → Option Binding
  | binding b => some b
  | _ => none

def bindings (lines : List Line) : List Binding := lines.filterMap Line.binding?

/-- The text with a line feed for every line end. -/
def withLineFeeds (t : Text) : Text :=
  (Text.replace "\r\n" "\n" t).map fun (c : CodePoint) => if c = '\r' then '\n' else c

/-- The lines of a file. A byte order mark in front does not count; bytes that are not UTF-8 are no
file. -/
def read? (bs : Bytes) : Option (List Line) :=
  (Utf8.decode .strict bs).map fun t =>
    let t := withLineFeeds (Text.dropStart "\ufeff" t)
    readLines t.length t

end PullAuth.EnvFile
