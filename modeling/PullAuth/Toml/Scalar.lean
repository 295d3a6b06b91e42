import PullAuth.Toml.Basic

/-!
The scalar values of TOML: strings in four spellings, dates and times, and numbers. A reading takes
the text from the value's first character on and gives the value with the text after it.
-/
namespace PullAuth.Toml

/-- What a reading gives: a value and the text after it. -/
abbrev Reading (α : Type) := Except Fault (α × Text)

def isBlank (c : CodePoint) : Bool := c = ' ' || c = '\t'

def isBlankOrNewline (c : CodePoint) : Bool := isBlank c || c = '\n'

/-- A control character that may stand neither in a comment nor in a string of one line. -/
def isControl (c : CodePoint) : Bool := (c.toNat < 0x20 && c.toNat != 0x09) || c.toNat == 0x7F

/-- A control character that may not stand in a string of several lines. -/
def isForbiddenInLines (c : CodePoint) : Bool := isControl c && c.toNat != 0x0A

/-! ## Strings -/

/-- What happens to the next character of a quoted string. -/
inductive Mode where
  /-- It is read. -/
  | plain
  /-- It and the next `count` belong to an escape that was read. -/
  | pass (count : Nat)
  /-- Only blanks may stand before the line end after a backslash. -/
  | seekNewline
  /-- Blanks and line ends are passed over after an escaped line end. -/
  | skipBlanks
  deriving DecidableEq

def hexNumber? (ds : Text) : Option Nat :=
  ds.foldlM (fun n d => d.hexValue?.map (16 * n + ·)) 0

/-- The scalar value that `count` hexadecimal digits name. -/
def hexScalar? (count : Nat) (t : Text) : Option CodePoint := do
  let ds := t.take count
  if ds.length ≠ count then none
  else
    let c ← CodePoint.ofNat? (← hexNumber? ds)
    if c.isSurrogate then none else some c

/-- The character that a backslash and `c` stand for. -/
def escape? (c : CodePoint) : Option CodePoint :=
  if c = '"' || c = '\\' then some c
  else if c = 'b' then some (.ofChar '\x08')
  else if c = 't' then some (.ofChar '\t')
  else if c = 'n' then some (.ofChar '\n')
  else if c = 'f' then some (.ofChar '\x0c')
  else if c = 'r' then some (.ofChar '\r')
  else none

/-- What the text after a backslash stands for, and how the reading goes on. -/
def readEscape (lines : Bool) : Text → Except Fault (Text × Mode)
  | [] => .error .malformed
  | e :: t =>
    if lines && isBlank e then .ok ([], .seekNewline)
    else if lines && e = '\n' then .ok ([], .skipBlanks)
    else if e = 'u' || e = 'U' then
      let count := if e = 'u' then 4 else 8
      match hexScalar? count t with
      | some c => .ok ([c], .pass count)
      | none => .error .malformed
    else match escape? e with
      | some c => .ok ([c], .pass 0)
      | none => .error .malformed

/-- The text of a quoted string up to its closing quotes, three of them if it has several lines. -/
def readQuoted (lines : Bool) : Mode → Text → Reading Text
  | _, [] => .error .malformed
  | mode, c :: t =>
    match mode with
    | .pass 0 => readQuoted lines .plain t
    | .pass (n + 1) => readQuoted lines (.pass n) t
    | .seekNewline =>
      if isBlank c then readQuoted lines .seekNewline t
      else if c = '\n' then readQuoted lines .skipBlanks t
      else .error .malformed
    | mode =>
      if mode = .skipBlanks && isBlankOrNewline c then readQuoted lines .skipBlanks t
      else if c = '"' && (!lines || Text.startsWith t "\"\"") then
        .ok ([], if lines then t.drop 2 else t)
      else if c = '\\' then
        match readEscape lines t with
        | .error fault => .error fault
        | .ok (part, mode) =>
          (readQuoted lines mode t).map fun (value, rest) => (part ++ value, rest)
      else if (if lines then isForbiddenInLines c else isControl c) then .error .malformed
      else (readQuoted lines .plain t).map fun (value, rest) => (c :: value, rest)

/-- One or two quotes right after three closing ones belong to the string. -/
def withTrailingQuotes (quote : CodePoint) (value rest : Text) : Text × Text :=
  let extra := (rest.takeWhile (· = quote)).take 2
  (value ++ extra, rest.drop extra.length)

/-- The text without the line end it may begin with. -/
def dropNewline (t : Text) : Text := Text.dropStart "\n" t

/-- A string in single quotes, from behind the opening one on. -/
def readLiteral (t : Text) : Reading Text :=
  match Text.cut? ('\'' : CodePoint) t with
  | some (value, rest) => if value.any isControl then .error .malformed else .ok (value, rest)
  | none => .error .malformed

/-- A string in three single quotes, from behind the opening ones on. -/
def readLiteralLines (t : Text) : Reading Text :=
  match Text.cutAt? "'''" (dropNewline t) with
  | some (value, rest) =>
    if value.any isForbiddenInLines then .error .malformed
    else .ok (withTrailingQuotes '\'' value rest)
  | none => .error .malformed

/-- A string in three double quotes, from behind the opening ones on. -/
def readQuotedLines (t : Text) : Reading Text :=
  (readQuoted true .plain (dropNewline t)).map fun (value, rest) =>
    withTrailingQuotes '"' value rest

/-! ## Dates and times -/

def fixedDigits? (count : Nat) (t : Text) : Option (Nat × Text) :=
  let ds := t.take count
  if ds.length = count && ds.all CodePoint.isDigit then some (Text.digitsValue ds, t.drop count)
  else none

/-- The two digits of a number from `low` to `high`. -/
def twoDigits? (low high : Nat) (t : Text) : Option (Nat × Text) := do
  let (n, rest) ← fixedDigits? 2 t
  if low ≤ n && n ≤ high then some (n, rest) else none

/-- The digits after the point of a second, of which six count, in microseconds. -/
def readMicroseconds (t : Text) : Nat × Text :=
  match t with
  | c :: rest =>
    let ds := rest.takeWhile CodePoint.isDigit
    if c = '.' && !ds.isEmpty then
      let six := ds.take 6
      (Text.digitsValue six * Nat.pow 10 (6 - six.length), rest.drop ds.length)
    else (0, t)
  | [] => (0, t)

/-- A time of day. -/
def readTime? (t : Text) : Option ((Nat × Nat × Nat × Nat) × Text) := do
  let (hour, t) ← twoDigits? 0 23 t
  let t ← Text.after? ":" t
  let (minute, t) ← twoDigits? 0 59 t
  let t ← Text.after? ":" t
  let (second, t) ← twoDigits? 0 59 t
  let (micro, t) := readMicroseconds t
  return ((hour, minute, second, micro), t)

/-- The offset of a time in minutes, if it has one. -/
def readOffset (t : Text) : Option Int × Text :=
  match t with
  | [] => (none, t)
  | c :: rest =>
    if c = 'Z' || c = 'z' then (some 0, rest)
    else if c = '+' || c = '-' then
      let offset : Option (Int × Text) := do
        let (hour, r) ← twoDigits? 0 23 rest
        let r ← Text.after? ":" r
        let (minute, r) ← twoDigits? 0 59 r
        let minutes : Int := hour * 60 + minute
        return (if c = '-' then -minutes else minutes, r)
      match offset with
      | some (minutes, r) => (some minutes, r)
      | none => (none, t)
    else (none, t)

/-- A date without regard to the length of its month. -/
def readDate? (t : Text) : Option ((Nat × Nat × Nat) × Text) := do
  let (year, t) ← fixedDigits? 4 t
  let t ← Text.after? "-" t
  let (month, t) ← twoDigits? 1 12 t
  let t ← Text.after? "-" t
  let (day, t) ← twoDigits? 1 31 t
  return ((year, month, day), t)

/-- The days of a month. -/
def monthLength (year month : Nat) : Nat :=
  if month = 2 then
    if year % 4 = 0 && (year % 100 ≠ 0 || year % 400 = 0) then 29 else 28
  else if month = 4 || month = 6 || month = 9 || month = 11 then 30
  else 31

/-- Whether the calendar has the date. -/
def isCalendarDate : Nat × Nat × Nat → Bool
  | (year, month, day) => 1 ≤ year && day ≤ monthLength year month

/-- The time after a date, behind a `T` or a blank, with its offset. -/
def readTimeOfDate (t : Text) : Option ((Nat × Nat × Nat × Nat) × Option Int × Text) :=
  match t with
  | [] => none
  | c :: rest =>
    if c = 'T' || c = 't' || c = ' ' then do
      let (time, r) ← readTime? rest
      let (offset, r) := readOffset r
      return (time, offset, r)
    else none

/-- The date, the time or both that the text begins with, if it does. -/
def readMoment? (t : Text) : Option (Reading Moment) :=
  match readDate? t with
  | some (date, rest) =>
    some <|
      if isCalendarDate date then
        match readTimeOfDate rest with
        | some (time, offset, rest) => .ok (⟨some date, some time, offset⟩, rest)
        | none => .ok (⟨some date, none, none⟩, rest)
      else .error .malformed
  | none => (readTime? t).map fun (time, rest) => .ok (⟨none, some time, none⟩, rest)

/-! ## Numbers -/

/-- The digits of class `p` that the text begins with; an underscore may stand between two. -/
def digitRun (p : CodePoint → Bool) : Text → Text × Text
  | [] => ([], [])
  | c :: t =>
    if p c then
      let (ds, rest) := digitRun p t
      (c :: ds, rest)
    else match t with
      | d :: r =>
        if c = '_' && p d then
          let (ds, rest) := digitRun p r
          (d :: ds, rest)
        else ([], c :: t)
      | [] => ([], [c])

/-- Digits of class `p`, at least one; the first character is one. -/
def digits? (p : CodePoint → Bool) (t : Text) : Option (Text × Text) :=
  match t with
  | c :: _ => if p c then some (digitRun p t) else none
  | [] => none

/-- The number that digits write in a base. -/
def valueInBase (base : Nat) (ds : Text) : Nat :=
  ds.foldl (fun n d => base * n + (d.hexValue?).getD 0) 0

/-- An integer in base 16, 2 or 8 behind its mark. -/
def readMarkedInteger? (t : Text) : Option (Toml × Text) :=
  let marked (mark : Text) (base : Nat) : Option (Toml × Text) := do
    let body ← Text.after? mark t
    let (ds, rest) ← digits? (fun c => c.hexValue?.any (· < base)) body
    return (.integer (valueInBase base ds), rest)
  (marked "0x" 16).or ((marked "0b" 2).or (marked "0o" 8))

def readFraction (t : Text) : Option Text × Text :=
  match (Text.after? "." t).bind (digits? CodePoint.isDigit) with
  | some (ds, rest) => (some ds, rest)
  | none => (none, t)

/-- The power of ten after an `e`. -/
def readExponent (t : Text) : Option Int × Text :=
  match t with
  | c :: rest =>
    if c = 'e' || c = 'E' then
      let (negative, body) := match rest with
        | s :: r => if s = '-' then (true, r) else if s = '+' then (false, r) else (false, rest)
        | [] => (false, rest)
      match digits? CodePoint.isDigit body with
      | some (ds, rest) =>
        let n : Int := Text.digitsValue ds
        (some (if negative then -n else n), rest)
      | none => (none, t)
    else (none, t)
  | [] => (none, t)

/-- The sign that the text begins with: whether it is a minus, and the rest. -/
def readSign (t : Text) : Bool × Text :=
  match t with
  | c :: rest => if c = '-' then (true, rest) else if c = '+' then (false, rest) else (false, t)
  | [] => (false, t)

/-- A decimal number, if the text begins with one. -/
def readDecimal? (t : Text) : Option (Reading Toml) := do
  let (negative, body) := readSign t
  let (whole, rest) ← match body with
    | c :: r => if c = '0' then some ([c], r) else digits? CodePoint.isDigit body
    | [] => none
  let (fraction, rest) := readFraction rest
  let (power, rest) := readExponent rest
  match fraction, power with
  | none, none =>
    if whole.length > 4300 then some (.error .integerTooLong)
    else
      let n : Int := Text.digitsValue whole
      some (.ok (.integer (if negative then -n else n), rest))
  | _, _ =>
    let ds := fraction.getD []
    let value := Text.digitsValue (whole ++ ds)
    some (.ok (.float (.ofDecimal negative value (power.getD 0 - ds.length)), rest))

/-- The floats without digits. -/
def specialFloats : List (Text × Double) :=
  [("inf", .infinite false), ("+inf", .infinite false), ("-inf", .infinite true),
    ("nan", .notANumber), ("+nan", .notANumber), ("-nan", .notANumber)]

def readNumber (t : Text) : Reading Toml :=
  match readMarkedInteger? t with
  | some found => .ok found
  | none =>
    match readDecimal? t with
    | some reading => reading
    | none =>
      match specialFloats.findSome? fun (word, value) => (Text.after? word t).map (value, ·) with
      | some (value, rest) => .ok (.float value, rest)
      | none => .error .malformed

end PullAuth.Toml
