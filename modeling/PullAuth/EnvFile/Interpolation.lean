import PullAuth.EnvFile.Reader
import PullAuth.Keyed

/-!
References in the values of an environment file. A name between a dollar sign with an opening
brace and a closing brace stands for the value of that variable, and a text behind `:-` for the
value that a variable without one has. Variables that were bound before in the file come before
those of the environment.
-/
namespace PullAuth.EnvFile

/-- A reference to a variable. -/
structure Reference where
  name : Text
  /-- The value of a variable that is not bound. -/
  fallback : Text
  /-- The number of characters of the reference. -/
  length : Nat

def readReference? (t : Text) : Option Reference := do
  let body ← Text.after? "$\x7b" t
  let (name, rest) := body.span fun (c : CodePoint) => !(c = '\x7d' || c = ':')
  match Text.after? "\x7d" rest with
  | some rest => return ⟨name, [], t.length - rest.length⟩
  | none =>
    let (fallback, rest) ← Text.cut? ('\x7d' : CodePoint) (← Text.after? ":-" rest)
    return ⟨name, fallback, t.length - rest.length⟩

/-- The text with its references resolved. The first number counts the characters of a reference
that are still to be passed over. -/
def interpolateFrom (value? : Text → Option Text) : Nat → Text → Text
  | _, [] => []
  | skip + 1, _ :: t => interpolateFrom value? skip t
  | 0, c :: t =>
    match readReference? (c :: t) with
    | some r =>
      (value? r.name).getD r.fallback ++ interpolateFrom value? (r.length - 1) t
    | none => c :: interpolateFrom value? 0 t

/-- The text with every reference replaced by the value of its variable. -/
def interpolate (value? : Text → Option Text) (t : Text) : Text := interpolateFrom value? 0 t

/-- The names in the references of a text. The first number counts the characters of a reference
that are still to be passed over. -/
def namesFrom : Nat → Text → List Text
  | _, [] => []
  | skip + 1, _ :: t => namesFrom skip t
  | 0, c :: t =>
    match readReference? (c :: t) with
    | some r => r.name :: namesFrom (r.length - 1) t
    | none => namesFrom 0 t

/-- The names of the variables that the values of a file refer to. -/
def referencedNames (bindings : List Binding) : List Text :=
  bindings.flatMap fun binding => namesFrom 0 (binding.2.getD [])

/-- The values of variables; it is missing where a binding has none. -/
abbrev Values := Keyed (Option Text)

/-- The value that a reference finds: that of the file, where a missing value counts as empty, or
else that of the environment. -/
def referenced (environment : Keyed Text) (values : Values) (name : Text) : Option Text :=
  match Keyed.get? name values with
  | some value => some (value.getD [])
  | none => Keyed.get? name environment

/-- The values after one more binding. -/
def bind (environment : Keyed Text) (values : Values) (binding : Binding) : Values :=
  Keyed.put binding.1 (binding.2.map (interpolate (referenced environment values))) values

/-- The values that the bindings of a file give to its variables. -/
def resolve (environment : Keyed Text) (bindings : List Binding) : Values :=
  bindings.foldl (bind environment) []

/-- The value of a variable when the environment comes before the file; empty if there is none. -/
def valueOf (environment : Keyed Text) (values : Values) (name : Text) : Text :=
  match Keyed.get? name environment with
  | some value => value
  | none => ((Keyed.get? name values).getD none).getD []

end PullAuth.EnvFile
