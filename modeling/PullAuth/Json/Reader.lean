import PullAuth.Json.Basic

/-!
Reading JSON texts. Between tokens stand spaces, tabs and line ends. Beyond the grammar of the
standard the words `NaN`, `Infinity` and `-Infinity` are numbers. Of members with one key the last
value counts, in the place of the first. Escapes of two halves of a surrogate pair are one
character; a lone half stays. Characters below U+0020 in a string and whole numbers of more than
4300 digits are refused. A text that is no JSON text has no value.
-/
namespace PullAuth.Json

def isSpace (c : CodePoint) : Bool := c = ' ' || c = '\t' || c = '\n' || c = '\r'

def skipSpace (t : Text) : Text := t.dropWhile isSpace

/-- The number of four hexadecimal digits. -/
def hexUnit? (a b c d : CodePoint) : Option CodePoint := do
  let w ← a.hexValue?
  let x ← b.hexValue?
  let y ← c.hexValue?
  let z ← d.hexValue?
  CodePoint.ofNat? (((w * 16 + x) * 16 + y) * 16 + z)

/-- The character that a backslash and `c` stand for. -/
def escape? (c : CodePoint) : Option CodePoint :=
  if c = '"' || c = '\\' || c = '/' then some c
  else if c = 'b' then some (.ofChar '\x08')
  else if c = 'f' then some (.ofChar '\x0c')
  else if c = 'n' then some (.ofChar '\n')
  else if c = 'r' then some (.ofChar '\r')
  else if c = 't' then some (.ofChar '\t')
  else none

/-- `c` in front of the text that was read. -/
def prepend (c : CodePoint) : Option (Text × Text) → Option (Text × Text) :=
  Option.map fun (value, rest) => (c :: value, rest)

/-- The string that ends at the first closing quote, and what follows it. -/
def readString : Text → Option (Text × Text)
  | [] => none
  | c :: t =>
    if c = '"' then some ([], t)
    else if c.toNat < 0x20 then none
    else if c ≠ '\\' then prepend c (readString t)
    else match t with
      | [] => none
      | e :: t =>
        if e ≠ 'u' then
          match escape? e with
          | some c => prepend c (readString t)
          | none => none
        else match t with
          | h₁ :: h₂ :: h₃ :: h₄ :: t =>
            match hexUnit? h₁ h₂ h₃ h₄ with
            | none => none
            | some unit =>
              match t with
              | b :: v :: l₁ :: l₂ :: l₃ :: l₄ :: t' =>
                if unit.isHighSurrogate && b = '\\' && v = 'u' then
                  match hexUnit? l₁ l₂ l₃ l₄ with
                  | none => none
                  | some low =>
                    if low.isLowSurrogate then prepend (.ofSurrogates unit low) (readString t')
                    else prepend unit (readString (b :: v :: l₁ :: l₂ :: l₃ :: l₄ :: t'))
                else prepend unit (readString (b :: v :: l₁ :: l₂ :: l₃ :: l₄ :: t'))
              | t => prepend unit (readString t)
          | _ => none

/-- The digits that the text begins with, and the rest. -/
def spanDigits (t : Text) : Text × Text := t.span CodePoint.isDigit

/-- The digits after a point; a point without a digit is not part of the number. -/
def readFraction (t : Text) : Option Text × Text :=
  match t with
  | c :: rest =>
    if c = '.' then
      match spanDigits rest with
      | ([], _) => (none, t)
      | (ds, rest) => (some ds, rest)
    else (none, t)
  | [] => (none, t)

/-- The power of ten after an `e`; without a digit it is not part of the number. -/
def readExponent (t : Text) : Option Int × Text :=
  match t with
  | c :: rest =>
    if c = 'e' || c = 'E' then
      let (negative, digits) := match rest with
        | s :: r => if s = '-' then (true, r) else if s = '+' then (false, r) else (false, rest)
        | [] => (false, rest)
      match spanDigits digits with
      | ([], _) => (none, t)
      | (ds, rest) =>
        let n : Int := Text.digitsValue ds
        (some (if negative then -n else n), rest)
    else (none, t)
  | [] => (none, t)

/-- The digits before the point: a zero, or digits that do not begin with one. -/
def readWhole : Text → Option (Text × Text)
  | [] => none
  | c :: t =>
    if c = '0' then some ([c], t)
    else if c.isDigit then
      let (ds, rest) := spanDigits t
      some (c :: ds, rest)
    else none

/-- The most digits of a whole number. -/
def wholeDigitLimit : Nat := 4300

def readNumber (t : Text) : Option (Json × Text) := do
  let (negative, digits) := match t with
    | c :: rest => if c = '-' then (true, rest) else (false, t)
    | [] => (false, t)
  let (whole, rest) ← readWhole digits
  let (fraction, rest) := readFraction rest
  let (power, rest) := readExponent rest
  match fraction, power with
  | none, none =>
    if whole.length > wholeDigitLimit then none
    else
      let n : Int := Text.digitsValue whole
      return (int (if negative then -n else n), rest)
  | _, _ =>
    let ds := fraction.getD []
    let value := Text.digitsValue (whole ++ ds)
    return (double (.ofDecimal negative value (power.getD 0 - ds.length)), rest)

/-- The words that are values. -/
def words : List (Text × Json) :=
  [("null", null), ("true", bool true), ("false", bool false), ("NaN", double .notANumber),
    ("Infinity", double (.infinite false)), ("-Infinity", double (.infinite true))]

/-- The word that the text begins with, as a value. -/
def readWord (t : Text) : Option (Json × Text) :=
  words.findSome? fun (word, value) => (Text.after? word t).map (value, ·)

mutual

def readValue : Nat → Text → Option (Json × Text)
  | 0, _ => none
  | _ + 1, [] => none
  | fuel + 1, c :: t =>
    if c = '"' then (readString t).map fun (value, rest) => (string value, rest)
    else if c = '[' then
      match skipSpace t with
      | [] => none
      | d :: rest =>
        if d = ']' then some (array [], rest)
        else (readItems fuel (d :: rest)).map fun (items, rest) => (array items, rest)
    else if c = '{' then
      match skipSpace t with
      | [] => none
      | d :: rest =>
        if d = '}' then some (object [], rest)
        else (readMembers fuel (d :: rest)).map fun (members, rest) =>
          (object (Keyed.ofPairs members), rest)
    else match readWord (c :: t) with
      | some found => some found
      | none => readNumber (c :: t)

/-- The items of an array up to its closing bracket. -/
def readItems : Nat → Text → Option (List Json × Text)
  | 0, _ => none
  | fuel + 1, t =>
    match readValue fuel t with
    | none => none
    | some (item, rest) =>
      match skipSpace rest with
      | [] => none
      | d :: rest =>
        if d = ']' then some ([item], rest)
        else if d = ',' then
          (readItems fuel (skipSpace rest)).map fun (items, rest) => (item :: items, rest)
        else none

/-- The members of an object up to its closing brace. -/
def readMembers : Nat → Text → Option (List (Text × Json) × Text)
  | 0, _ => none
  | _ + 1, [] => none
  | fuel + 1, q :: t =>
    if q ≠ '"' then none
    else match readString t with
      | none => none
      | some (key, rest) =>
        match skipSpace rest with
        | [] => none
        | d :: rest =>
          if d ≠ ':' then none
          else match readValue fuel (skipSpace rest) with
            | none => none
            | some (value, rest) =>
              match skipSpace rest with
              | [] => none
              | d :: rest =>
                if d = '}' then some ([(key, value)], rest)
                else if d = ',' then
                  (readMembers fuel (skipSpace rest)).map fun (members, rest) =>
                    ((key, value) :: members, rest)
                else none

end

/-- The value of a JSON text. Twice its length bounds the depth of the reading, because every
second step takes a character. -/
def read? (t : Text) : Option Json := do
  let (value, rest) ← readValue (2 * t.length + 2) (skipSpace t)
  if (skipSpace rest).isEmpty then return value else none

end PullAuth.Json
