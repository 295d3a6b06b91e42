import PullAuth.Text.Basic

/-!
The entries that the provider writes to its journal, each with a level and the part of the program
that it comes from.
-/
namespace PullAuth

/-- How much an entry matters, the least first. -/
inductive Level where
  | debug
  | info
  | warning
  | critical
  deriving DecidableEq

namespace Level

def rank : Level → Nat
  | debug => 0
  | info => 1
  | warning => 2
  | critical => 3

def name : Level → Text
  | debug => "DEBUG"
  | info => "INFO"
  | warning => "WARNING"
  | critical => "CRITICAL"

def all : List Level := [debug, info, warning, critical]

end Level

/-- The part of the program that an entry comes from. -/
inductive Part where
  | provider
  /-- The reader of environment files. -/
  | environmentFiles
  deriving DecidableEq

/-- What the lines of a journal file tell in front of the level. -/
structure Letterhead where
  /-- The time, with a space behind it; empty if it is not told. -/
  time : Text := []
  /-- The name of the provider. -/
  provider : Text := "pullauth"

def Part.name (head : Letterhead) : Part → Text
  | provider => head.provider
  | environmentFiles => "envfile"

/-- An entry of the journal. -/
structure Entry where
  level : Level
  text : Text
  part : Part := .provider
  deriving DecidableEq

namespace Entry

/-- An entry of the provider at the least level. -/
def debug (text : Text) : Entry := { level := .debug, text }

/-- An entry of the provider about what goes on. -/
def info (text : Text) : Entry := { level := .info, text }

/-- A warning of the provider. -/
def warning (text : Text) : Entry := { level := .warning, text }

/-- An entry of the provider about a failure that ends its work. -/
def critical (text : Text) : Entry := { level := .critical, text }

def line (head : Letterhead) (e : Entry) : Text :=
  head.time ++ "[" ++ e.part.name head ++ ":" ++ e.level.name ++ "] " ++ e.text ++ "\n"

end Entry

end PullAuth
