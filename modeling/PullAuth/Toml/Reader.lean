import PullAuth.Text.Utf8
import PullAuth.Toml.Scalar

/-!
Reading TOML documents. Tables grow as headers and dotted keys name them, and three lists of key
paths keep them from being defined twice: the frozen ones, whose inline tables and arrays take
nothing more, the declared ones, which no header may name again, and the pending ones, which are
declared when the next header comes.
-/
namespace PullAuth.Toml

/-- A dotted key: the keys that lead to a value. -/
abbrev KeyPath := List Text

/-! ## Keys -/

/-- A character of a key without quotes. -/
def isBareKey (c : CodePoint) : Bool :=
  c.isDigit || (0x41 ≤ c.toNat && c.toNat ≤ 0x5A) || (0x61 ≤ c.toNat && c.toNat ≤ 0x7A) ||
    c = '-' || c = '_'

def skipBlanks (t : Text) : Text := t.dropWhile isBlank

def readKeyPart (t : Text) : Except Fault (Text × Text) :=
  match t with
  | [] => .error .malformed
  | c :: rest =>
    if isBareKey c then .ok (t.span isBareKey)
    else if c = '\'' then readLiteral rest
    else if c = '"' then readQuoted false .plain rest
    else .error .malformed

/-- A key and the blanks after it. -/
def readKey : Nat → Text → Except Fault (KeyPath × Text)
  | 0, _ => .error .malformed
  | fuel + 1, t => do
    let (part, rest) ← readKeyPart t
    match skipBlanks rest with
    | [] => .ok ([part], [])
    | c :: rest =>
      if c = '.' then do
        let (parts, rest) ← readKey fuel (skipBlanks rest)
        .ok (part :: parts, rest)
      else .ok ([part], c :: rest)

/-! ## Tables -/

/-- The table at `path` changed by `change`, with the tables on the way to it made if they are
missing. If `intoArrays` the way leads through the last table of an array of tables. -/
def updateAt (intoArrays : Bool) (change : Keyed Toml → Option (Keyed Toml)) :
    KeyPath → Keyed Toml → Option (Keyed Toml)
  | [], members => change members
  | key :: path, members =>
    match Keyed.get? key members with
    | none => (updateAt intoArrays change path []).map fun t => Keyed.put key (table t) members
    | some (table inner) =>
      (updateAt intoArrays change path inner).map fun t => Keyed.put key (table t) members
    | some (array items) =>
      match intoArrays, items.getLast? with
      | true, some (table inner) =>
        (updateAt intoArrays change path inner).map fun t =>
          Keyed.put key (array (items.dropLast ++ [table t])) members
      | _, _ => none
    | some _ => none

def addKey (key : Text) (value : Toml) (members : Keyed Toml) : Option (Keyed Toml) :=
  if Keyed.has key members then none else some (Keyed.put key value members)

/-- One more table in the array of tables under a key. -/
def addTable (key : Text) (members : Keyed Toml) : Option (Keyed Toml) :=
  match Keyed.get? key members with
  | none => some (Keyed.put key (array [table []]) members)
  | some (array items) => some (Keyed.put key (array (items ++ [table []])) members)
  | some _ => none

/-- Whether one of the paths leads to `path` or to a table around it. -/
def covers (paths : List KeyPath) (path : KeyPath) : Bool := paths.any (·.isPrefixOf path)

/-- The paths that do not go through `path`. -/
def without (paths : List KeyPath) (path : KeyPath) : List KeyPath :=
  paths.filter fun p => !path.isPrefixOf p

/-! ## Values -/

/-- The room for values inside values. -/
def valueRoom : Nat := 980

/-- The room that an array takes while its items are read. -/
def arrayRoom : Nat := 2

/-- The room that an inline table takes while its pairs are read. -/
def tableRoom : Nat := 3

/-- The text after a comment, if it begins with one. -/
def skipComment (t : Text) : Except Fault Text :=
  match t with
  | [] => .ok []
  | c :: rest =>
    if c = '#' then
      let (comment, rest) := rest.span fun (c : CodePoint) => !(c = '\n')
      if comment.any isControl then .error .malformed else .ok rest
    else .ok t

def skipFiller : Nat → Text → Except Fault Text
  | 0, t => .ok t
  | fuel + 1, t =>
    match t.dropWhile isBlankOrNewline with
    | [] => .ok []
    | c :: rest =>
      if c = '#' then do
        let rest ← skipComment (c :: rest)
        skipFiller fuel rest
      else .ok (c :: rest)

mutual

/-- The value that the text begins with, if there is room for it. -/
def readValue : Nat → Nat → Text → Except Fault (Toml × Text)
  | 0, _, _ => .error .malformed
  | _ + 1, _, [] => .error .malformed
  | fuel + 1, room, c :: t =>
    let asString (reading : Except Fault (Text × Text)) : Except Fault (Toml × Text) :=
      reading.map fun (value, rest) => (string value, rest)
    if c = '"' then
      match Text.after? "\"\"" t with
      | some t => asString (readQuotedLines t)
      | none => asString (readQuoted false .plain t)
    else if c = '\'' then
      match Text.after? "''" t with
      | some t => asString (readLiteralLines t)
      | none => asString (readLiteral t)
    else if c = '[' then
      if room < arrayRoom then .error .tooDeep
      else do
        match ← skipFiller t.length t with
        | [] => .error .malformed
        | d :: rest =>
          if d = ']' then .ok (array [], rest)
          else do
            let (items, rest) ← readItems fuel (room - arrayRoom) (d :: rest)
            .ok (array items, rest)
    else if c = '\x7b' then
      if room < tableRoom then .error .tooDeep
      else match skipBlanks t with
        | [] => .error .malformed
        | d :: rest =>
          if d = '\x7d' then .ok (table [], rest)
          else do
            let (members, rest) ← readPairs fuel (room - tableRoom) [] [] (d :: rest)
            .ok (table members, rest)
    else match Text.after? "true" (c :: t), Text.after? "false" (c :: t) with
      | some rest, _ => .ok (boolean true, rest)
      | none, some rest => .ok (boolean false, rest)
      | none, none =>
        match readMoment? (c :: t) with
        | some reading => reading.map fun (value, rest) => (moment value, rest)
        | none => readNumber (c :: t)

/-- The items of an array up to its closing bracket. -/
def readItems : Nat → Nat → Text → Except Fault (List Toml × Text)
  | 0, _, _ => .error .malformed
  | fuel + 1, room, t => do
    let (item, rest) ← readValue fuel room t
    match ← skipFiller rest.length rest with
    | [] => .error .malformed
    | d :: rest =>
      if d = ']' then .ok ([item], rest)
      else if d = ',' then do
        match ← skipFiller rest.length rest with
        | [] => .error .malformed
        | e :: rest =>
          if e = ']' then .ok ([item], rest)
          else do
            let (items, rest) ← readItems fuel room (e :: rest)
            .ok (item :: items, rest)
      else .error .malformed

/-- The pairs of an inline table up to its closing brace, put into the members so far; the frozen
paths are those of the containers among them. -/
def readPairs : Nat → Nat → List KeyPath → Keyed Toml → Text → Except Fault (Keyed Toml × Text)
  | 0, _, _, _, _ => .error .malformed
  | fuel + 1, room, frozen, members, t => do
    let (key, rest) ← readKey (t.length + 1) t
    let rest ← (Text.after? "=" rest).elim (.error .malformed) .ok
    let (value, rest) ← readValue fuel room (skipBlanks rest)
    if covers frozen key then .error .malformed
    else match updateAt false (addKey (key.getLastD []) value) key.dropLast members with
      | none => .error .malformed
      | some members =>
        match skipBlanks rest with
        | [] => .error .malformed
        | d :: rest =>
          if d = '\x7d' then .ok (members, rest)
          else if d = ',' then
            readPairs fuel room (if value.isContainer then key :: frozen else frozen) members
              (skipBlanks rest)
          else .error .malformed

end

/-! ## Documents -/

/-- A document as far as it was read. -/
structure Draft where
  root : Keyed Toml := []
  /-- The paths that take nothing more. -/
  frozen : List KeyPath := []
  /-- The paths that no header may name. -/
  declared : List KeyPath := []
  /-- The paths that are declared when the next header comes. -/
  pending : List KeyPath := []
  /-- The table that pairs are put into. -/
  header : KeyPath := []

namespace Draft

/-- The draft when a header comes. -/
def settle (d : Draft) : Draft := { d with declared := d.pending ++ d.declared, pending := [] }

def openTable (key : KeyPath) (d : Draft) : Except Fault Draft :=
  let d := d.settle
  if d.declared.contains key || covers d.frozen key then .error .malformed
  else match updateAt true some key d.root with
    | none => .error .malformed
    | some root => .ok { d with root, declared := key :: d.declared, header := key }

/-- The draft with one more table in the array at `key`, and that table opened. -/
def openItem (key : KeyPath) (d : Draft) : Except Fault Draft :=
  let d := d.settle
  if covers d.frozen key then .error .malformed
  else match updateAt true (addTable (key.getLastD [])) key.dropLast d.root with
    | none => .error .malformed
    | some root =>
      .ok { d with
        root
        frozen := without d.frozen key
        declared := key :: without d.declared key
        header := key }

def addPair (key : KeyPath) (value : Toml) (d : Draft) : Except Fault Draft :=
  let onTheWay := (List.range (key.length - 1)).map fun i => d.header ++ key.take (i + 1)
  let parent := d.header ++ key.dropLast
  if onTheWay.any d.declared.contains || covers d.frozen parent then .error .malformed
  else match updateAt true (addKey (key.getLastD []) value) parent d.root with
    | none => .error .malformed
    | some root =>
      .ok { d with
        root
        frozen := if value.isContainer then (d.header ++ key) :: d.frozen else d.frozen
        pending := onTheWay ++ d.pending }

end Draft

/-- The text behind the closing brackets of a header. -/
def closeHeader (brackets : Text) (t : Text) : Except Fault Text :=
  (Text.after? brackets t).elim (.error .malformed) .ok

/-- The draft after the header or pair that the text begins with, and the text after it. -/
def readStatement (d : Draft) (t : Text) : Except Fault (Draft × Text) :=
  match Text.after? "[[" t, Text.after? "[" t with
  | some body, _ => do
    let (key, rest) ← readKey (body.length + 1) (skipBlanks body)
    let d ← d.openItem key
    .ok (d, ← closeHeader "]]" rest)
  | none, some body => do
    let (key, rest) ← readKey (body.length + 1) (skipBlanks body)
    let d ← d.openTable key
    .ok (d, ← closeHeader "]" rest)
  | none, none => do
    let (key, rest) ← readKey (t.length + 1) t
    let rest ← (Text.after? "=" rest).elim (.error .malformed) .ok
    let body := skipBlanks rest
    let (value, rest) ← readValue (2 * body.length + 2) valueRoom body
    .ok (← d.addPair key value, rest)

/-- The members of a document of which a part was read. -/
def readStatements : Nat → Draft → Text → Except Fault (Keyed Toml)
  | 0, _, _ => .error .malformed
  | fuel + 1, d, t =>
    match skipBlanks t with
    | [] => .ok d.root
    | c :: rest =>
      if c = '\n' then readStatements fuel d rest
      else do
        let (d, rest) ← if c = '#' then .ok (d, c :: rest) else readStatement d (c :: rest)
        match ← skipComment (skipBlanks rest) with
        | [] => .ok d.root
        | e :: rest => if e = '\n' then readStatements fuel d rest else .error .malformed

def readText (t : Text) : Except Fault (Keyed Toml) :=
  let t := Text.replace "\r\n" "\n" t
  readStatements (t.length + 1) {} t

def read (bs : Bytes) : Except Fault (Keyed Toml) :=
  match Utf8.decode .strict bs with
  | some t => readText t
  | none => .error .undecodable

end PullAuth.Toml
