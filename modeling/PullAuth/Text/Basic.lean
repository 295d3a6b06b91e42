/-!
Text as the provider reads and writes it: a list of code points. Surrogates count as code points,
because an escape in a JSON document can name a lone one and because bytes that are not UTF-8 are
kept as surrogates. Texts are compared code point by code point.
-/
namespace PullAuth

/-- A Unicode code point; surrogates are included. -/
structure CodePoint where
  toNat : Nat
  isLt : toNat < 0x110000
  deriving DecidableEq

/-- A text is the list of its code points. -/
abbrev Text := List CodePoint

namespace CodePoint

/-- The code point with number `n`, if there is one. -/
def ofNat? (n : Nat) : Option CodePoint :=
  if h : n < 0x110000 then some ⟨n, h⟩ else none

/-- Every scalar value is a code point. -/
def ofChar (c : Char) : CodePoint :=
  ⟨c.toNat, by
    have h := c.valid
    have e : c.toNat = c.val.toNat := rfl
    simp only [UInt32.isValidChar, Nat.isValidChar] at h
    omega⟩

instance : Coe Char CodePoint := ⟨ofChar⟩

/-- A byte read as a code point below 256. -/
def ofByte (b : UInt8) : CodePoint :=
  ⟨b.toNat, by have h := b.toNat_lt; omega⟩

/-- The first half of a surrogate pair. -/
def isHighSurrogate (c : CodePoint) : Bool := 0xD800 ≤ c.toNat && c.toNat < 0xDC00

/-- The second half of a surrogate pair. -/
def isLowSurrogate (c : CodePoint) : Bool := 0xDC00 ≤ c.toNat && c.toNat < 0xE000

/-- A surrogate stands for no character. -/
def isSurrogate (c : CodePoint) : Bool := 0xD800 ≤ c.toNat && c.toNat < 0xE000

/-- The code point that a pair of surrogates stands for. -/
def ofSurrogates (high low : CodePoint) : CodePoint :=
  if h : high.isHighSurrogate = true ∧ low.isLowSurrogate = true then
    ⟨0x10000 + (high.toNat - 0xD800) * 0x400 + (low.toNat - 0xDC00), by
      have h₁ := h.1
      have h₂ := h.2
      simp only [isHighSurrogate, isLowSurrogate, Bool.and_eq_true, decide_eq_true_eq] at h₁ h₂
      omega⟩
  else high

def isDigit (c : CodePoint) : Bool := 0x30 ≤ c.toNat && c.toNat ≤ 0x39

def hexValue? (c : CodePoint) : Option Nat :=
  if c.isDigit then some (c.toNat - 0x30)
  else if 0x61 ≤ c.toNat && c.toNat ≤ 0x66 then some (c.toNat - 0x57)
  else if 0x41 ≤ c.toNat && c.toNat ≤ 0x46 then some (c.toNat - 0x37)
  else none

/-- The lower case hexadecimal digit with value `n`, for `n < 16`. -/
def hexDigit (n : Nat) : CodePoint := .ofChar (Nat.digitChar n)

end CodePoint

namespace Text

/-- The code points of a string. -/
def ofString (s : String) : Text := s.toList.map .ofChar

instance : Coe String Text := ⟨ofString⟩

/-- A whole number in decimal digits. -/
def ofNat (n : Nat) : Text := (Nat.toDigits 10 n).map .ofChar

/-- A whole number in decimal digits, after a minus sign if it is negative. -/
def ofInt : Int → Text
  | .ofNat n => ofNat n
  | .negSucc n => .ofChar '-' :: ofNat (n + 1)

/-- The number that decimal digits write. -/
def digitsValue (ds : Text) : Nat := ds.foldl (fun n d => 10 * n + (d.toNat - 0x30)) 0

/-- `n` in hexadecimal digits, at least `width` of them. -/
def ofHex (width n : Nat) : Text :=
  let ds := (Nat.toDigits 16 n).map CodePoint.ofChar
  List.replicate (width - ds.length) (.ofChar '0') ++ ds

/-- Whether `s` comes before `t` when code points are compared one by one. -/
def before : Text → Text → Bool
  | [], [] => false
  | [], _ :: _ => true
  | _ :: _, [] => false
  | a :: s, b :: t => a.toNat < b.toNat || (a.toNat == b.toNat && before s t)

/-- Whether `s` is `t` or comes before it. -/
def notAfter (s t : Text) : Bool := !before t s

/-- What follows `start` in `t`, if `t` begins with it. -/
def after? (start t : Text) : Option Text := List.isPrefixOf? start t

def startsWith (t start : Text) : Bool := start.isPrefixOf t

def endsWith (t ending : Text) : Bool := ending.isSuffixOf t

/-- `t` without `start` in front, once. -/
def dropStart (start t : Text) : Text := (after? start t).getD t

/-- `t` without the given starts in front, each dropped once, in their order. -/
def dropStarts (starts : List Text) (t : Text) : Text :=
  starts.foldl (fun t start => dropStart start t) t

/-- `t` without the code points of class `p` at its end. -/
def trimEnd (p : CodePoint → Bool) (t : Text) : Text := (t.reverse.dropWhile p).reverse

/-- `t` without the code points of class `p` at either end. -/
def trim (p : CodePoint → Bool) (t : Text) : Text := trimEnd p (t.dropWhile p)

/-- The pieces of a list between its separators; there is one more than there are separators. -/
def pieces {α : Type} [DecidableEq α] (separator : α) : List α → List (List α)
  | [] => [[]]
  | a :: rest =>
    if a = separator then [] :: pieces separator rest
    else match pieces separator rest with
      | [] => [[a]]
      | first :: more => (a :: first) :: more

/-- The texts between the separators of `t`. -/
def split (separator : CodePoint) (t : Text) : List Text := pieces separator t

/-- A list cut at its first separator, if it has one. -/
def cut? {α : Type} [DecidableEq α] (separator : α) : List α → Option (List α × List α)
  | [] => none
  | a :: rest =>
    if a = separator then some ([], rest)
    else (cut? separator rest).map fun (head, tail) => (a :: head, tail)

/-- A list cut at its last separator, if it has one. -/
def cutLast? {α : Type} [DecidableEq α] (separator : α) (l : List α) : Option (List α × List α) :=
  (cut? separator l.reverse).map fun (tail, head) => (head.reverse, tail.reverse)

/-- What precedes and what follows the first occurrence of `part` in `t`. -/
def cutAt? (part : Text) : Text → Option (Text × Text)
  | [] => if part.isEmpty then some ([], []) else none
  | c :: t =>
    match after? part (c :: t) with
    | some rest => some ([], rest)
    | none => (cutAt? part t).map fun (head, tail) => (c :: head, tail)

/-- The texts one after another with `separator` between them. -/
def join (separator : Text) (ts : List Text) : Text := separator.intercalate ts

/-- Every occurrence of `part` in `t` replaced, from left to right. The first argument counts the
code points of an occurrence that are still to be passed over. -/
def replaceFrom (part new : Text) : Nat → Text → Text
  | _, [] => []
  | skip + 1, _ :: t => replaceFrom part new skip t
  | 0, c :: t =>
    match after? part (c :: t) with
    | some _ => new ++ replaceFrom part new (part.length - 1) t
    | none => c :: replaceFrom part new 0 t

/-- Every occurrence of the non-empty text `part` in `t` replaced by `new`. -/
def replace (part new t : Text) : Text := if part.isEmpty then t else replaceFrom part new 0 t

end Text

end PullAuth
