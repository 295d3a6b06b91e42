import PullAuth.CommandLine.Parameter

/-!
The arguments of the command line. An argument that begins with a hyphen is an option; its value
follows an equals sign in it or is the next argument. Options are spelled out, only `-l` is short.
Two hyphens alone end the options.
-/
namespace PullAuth.CommandLine

/-- What an argument says. -/
inductive Word where
  | endOfOptions
  | plain
  /-- It is an option, perhaps with its value. -/
  | option (parameter : Parameter) (value : Option Text)
  /-- It is an option that nobody knows. -/
  | unknown

def shortLevel : Text := "-l"

def shortWord (argument : Text) : Word :=
  match Text.after? shortLevel argument with
  | some value => .option .logLevel (if value.isEmpty then none else some value)
  | none => .unknown

def word (argument : Text) : Word :=
  if argument = "--" then .endOfOptions
  else if !Text.startsWith argument "-" || argument.length = 1 then .plain
  else
    let (option, value) := match Text.cut? ('=' : CodePoint) argument with
      | some (option, value) => (option, some value)
      | none => (argument, none)
    match Parameter.ofOption? option with
    | some p => .option p value
    | none => if Text.startsWith argument "--" then .unknown else shortWord argument

/-- The options of a command line with their values, in their order, and the other arguments. The
value of a flag is empty. -/
structure Arguments where
  options : List (Parameter × Text) := []
  others : List Text := []

namespace Arguments

def withOption (p : Parameter) (value : Text) (a : Arguments) : Arguments :=
  { a with options := (p, value) :: a.options }

def withOther (argument : Text) (a : Arguments) : Arguments :=
  { a with others := argument :: a.others }

/-- The arguments of a command line, unless an option is unknown, lacks its value or is a flag with
a value. -/
def read? : List Text → Option Arguments
  | [] => some {}
  | argument :: rest =>
    match word argument with
    | .endOfOptions => some { others := rest }
    | .unknown => none
    | .plain => (read? rest).map (withOther argument)
    | .option p value =>
      if p.takesValue then
        match value, rest with
        | some value, rest => (read? rest).map (withOption p value)
        | none, value :: rest => (read? rest).map (withOption p value)
        | none, [] => none
      else if value.isSome then none
      else (read? rest).map (withOption p [])

/-- The value that an option gives to a parameter; of several the last counts. -/
def value? (a : Arguments) (p : Parameter) : Option Text :=
  (a.options.reverse.find? fun given => given.1 = p).map (·.2)

/-- The parameters in the order in which their values are looked at: those with an option in the
order of the options, then the others. -/
def order (a : Arguments) : List Parameter :=
  let given := (a.options.map (·.1)).eraseDups
  given ++ Parameter.all.filter fun p => !given.contains p

end Arguments

end PullAuth.CommandLine
