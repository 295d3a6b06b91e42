import PullAuth.Registry.Table

/-!
Which registry a reference belongs to: the one whose scope covers most of it, of several the first.
A scope ends where the reference ends or goes on with a path, a tag or a digest.
-/
namespace PullAuth.Registry

/-- Whether the rest of a reference leaves the names before it whole. -/
def endsName : Text → Bool
  | [] => true
  | c :: _ => c = '/' || c = ':' || c = '@'

/-- How much of a reference lies in the scope, if it is covered at all. A wildcard scope covers up
to the first place where its domain stands. -/
def coverage? (scope ref : Text) : Option Nat :=
  if isWildcard scope then
    let domain := scope.drop 1
    match Text.cutAt? domain ref with
    | some (host, rest) =>
      if !host.contains ('/' : CodePoint) && endsName rest then some (host.length + domain.length)
      else none
    | none => none
  else match Text.after? scope ref with
    | some rest => if endsName rest then some scope.length else none
    | none => none

/-- The better of the best registry so far and one more. -/
def better (ref : Text) (best : Option (Registry × Nat)) (r : Registry) :
    Option (Registry × Nat) :=
  match coverage? r.scope ref, best with
  | some n, some (b, m) => if m < n then some (r, n) else some (b, m)
  | some n, none => some (r, n)
  | none, best => best

/-- The registry that a reference belongs to. -/
def find? (ref : Text) (registries : List Registry) : Option Registry :=
  (registries.foldl (better ref) none).map (·.1)

end PullAuth.Registry
