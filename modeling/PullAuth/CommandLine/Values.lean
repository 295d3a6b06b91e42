import PullAuth.CommandLine.Arguments
import PullAuth.Number.Integer

/-!
The values of the parameters. A value comes from the option, else from the environment, where an
empty variable does not count, else it is the standard one. A value of the wrong sort is a misuse of
the command line; so is a path that leads to a directory in place of a file or the reverse.
-/
namespace PullAuth.CommandLine

/-- Why a command line is not carried out. -/
inductive Refusal where
  /-- It is misused. -/
  | misuse
  /-- A path in it cannot be spelled. -/
  | breakdown (cause : Breakdown)

def setWords : List Text := ["1", "true", "t", "yes", "y", "on"]

def unsetWords : List Text := ["0", "false", "f", "no", "n", "off", ""]

def small (c : CodePoint) : CodePoint :=
  if h : 0x41 ≤ c.toNat ∧ c.toNat ≤ 0x5A then ⟨c.toNat + 0x20, by omega⟩ else c

/-- The flag that a word stands for. -/
def readFlag? (t : Text) : Option Bool :=
  let word := (Text.trim CodePoint.isBlank t).map small
  if setWords.contains word then some true
  else if unsetWords.contains word then some false
  else none

/-- The level that a word names in capitals or in small letters. -/
def readLevel? (t : Text) : Option Level :=
  Level.all.find? fun level => t = level.name || t = level.name.map small

/-- Whether a path may lead where it leads: nowhere, or to a directory if one is wanted and to a
file otherwise. -/
def checkPath (tree : Tree) (wantsDirectory : Bool) (path : Text) : Except Refusal Unit :=
  match tree.stat path with
  | .ok node => if node.isDirectory = wantsDirectory then .ok () else .error .misuse
  | .error (.system _) => .ok ()
  | .error .unencodable => .error (.breakdown .unencodable)
  | .error .nullCharacter => .error (.breakdown .nullCharacter)

/-- The value of a given sort that a text writes. -/
def readValue (tree : Tree) (sort : ValueSort) (t : Text) : Except Refusal Json :=
  match sort with
  | .flag =>
    match readFlag? t with
    | some value => .ok (.bool value)
    | none => .error .misuse
  | .level =>
    match readLevel? t with
    | some level => .ok (.string level.name)
    | none => .error .misuse
  | .count =>
    match Integer.read? t with
    | some n => if 1 ≤ n then .ok (.int n) else .error .misuse
    | none => .error .misuse
  | .file => (checkPath tree false t).map fun _ => .string t
  | .directory => (checkPath tree true t).map fun _ => .string t

/-- The text that a variable of the environment gives to a parameter. -/
def environmentValue? (environment : Keyed Text) (p : Parameter) : Option Text :=
  (Keyed.get? p.environmentVariable environment).filter fun t => !t.isEmpty

/-- The text that gives the value of a parameter. -/
def given? (arguments : Arguments) (environment : Keyed Text) (p : Parameter) : Option Text :=
  match arguments.value? p with
  | some t => if p.takesValue then some t else some "1"
  | none =>
    match environmentValue? environment p with
    | some t => some t
    | none => (p.standard?.bind Json.text?)

def valueOf (tree : Tree) (arguments : Arguments) (environment : Keyed Text) (p : Parameter) :
    Except Refusal (Option Json) :=
  match given? arguments environment p with
  | some t => (readValue tree p.sort t).map some
  | none => .ok p.standard?

/-- The values of parameters, up to the first that is refused. -/
def valuesOf (tree : Tree) (arguments : Arguments) (environment : Keyed Text) :
    List Parameter → Except Refusal Parameters
  | [] => .ok []
  | p :: rest => do
    let value ← valueOf tree arguments environment p
    let values ← valuesOf tree arguments environment rest
    return (value.map ((p.name, ·))).toList ++ values

def isSet (parameters : Parameters) (p : Parameter) : Bool :=
  ((Keyed.get? p.name parameters).map Json.isPresent).getD false

/-- The values of all parameters of a command line without other arguments. The options are
described before anything else is looked at. -/
def parametersOf (tree : Tree) (arguments : Arguments) (environment : Keyed Text) :
    Except Refusal Parameters := do
  let help ← valuesOf tree arguments environment [.help]
  if isSet help .help then return help
  let values ← valuesOf tree arguments environment (arguments.order.filter (· ≠ .help))
  if arguments.others.isEmpty then return values else throw .misuse

end PullAuth.CommandLine
