import PullAuth.Text.Quoted
import PullAuth.Toml.Basic

/-!
Registries as a configuration file describes them. A registry applies to the references in its
scope, which is the start of a reference or, behind `*.`, a domain with all its subdomains, and
lists the places that mirror it. A wildcard scope goes without a location of its own, any other
registry has one.
-/
namespace PullAuth

/-- A registry with its mirrors in the order of their priority. -/
structure Registry where
  /-- The references it applies to. -/
  scope : Text
  /-- Where it is; empty for a wildcard scope. -/
  location : Text
  mirrors : List Text
  deriving DecidableEq

namespace Registry

/-- What a location in a table is. -/
inductive Place where
  | location
  | scope
  | mirror
  deriving DecidableEq

def Place.name : Place → Text
  | location => "location"
  | scope => "prefix"
  | mirror => "mirror location"

/-- Why a table describes no registry. -/
inductive Fault where
  | notTable
  /-- The scope or the location is no string. -/
  | namesNotStrings
  | noLocation
  /-- A wildcard scope has a location. -/
  | wildcardWithLocation (scope : Text)
  | notString (place : Place)
  /-- A location has nothing but slashes. -/
  | empty (place : Place)
  | scheme (place : Place) (value : Text)
  | mirrorsNotArray (scope : Text)
  /-- A mirror is no table with a location. -/
  | mirrorWithoutLocation (scope : Text)
  deriving DecidableEq

def Fault.message : Fault → Text
  | notTable => "registry must be a table"
  | namesNotStrings => "registry prefix and location must be strings"
  | noLocation => "registry location is unset and prefix is not in the format *.example.com"
  | wildcardWithLocation scope =>
    "wildcarded prefix " ++ scope.quoted ++ " must not define a location"
  | notString place => place.name ++ " must be a string"
  | empty place => place.name ++ " cannot be empty"
  | scheme place value =>
    "invalid " ++ place.name ++ " " ++ value.quoted ++ ": URI schemes are not supported"
  | mirrorsNotArray scope => "mirror of " ++ scope.quoted ++ " must be an array"
  | mirrorWithoutLocation scope => "mirror of " ++ scope.quoted ++ " must define a location"

def hasScheme (t : Text) : Bool := Text.startsWith t "http://" || Text.startsWith t "https://"

/-- Whether a scope takes in the subdomains of a domain. -/
def isWildcard (scope : Text) : Bool := Text.startsWith scope "*."

/-- A location without the slashes at its end. -/
def trimmed (place : Place) (value : Text) : Except Fault Text :=
  let kept := Text.trimEnd (· = '/') value
  if kept.isEmpty then .error (.empty place)
  else if hasScheme kept then .error (.scheme place value)
  else .ok kept

/-- A location given as a value. -/
def readLocation (place : Place) : Toml → Except Fault Text
  | .string value => trimmed place value
  | _ => .error (.notString place)

/-- The location of a mirror in a registry of the given scope. -/
def readMirror (scope : Text) : Toml → Except Fault Text
  | .table members =>
    match Keyed.get? "location" members with
    | some value => readLocation .mirror value
    | none => .error (.mirrorWithoutLocation scope)
  | _ => .error (.mirrorWithoutLocation scope)

/-- The location of a registry, which may be missing beside a wildcard scope. -/
def ownLocation (scope location : Text) : Except Fault Text :=
  if !location.isEmpty then trimmed .location location
  else if isWildcard scope then .ok []
  else .error .noLocation

/-- The scope of a registry, which is its location if none is given. -/
def ownScope (scope location : Text) : Except Fault Text :=
  if scope.isEmpty then .ok location
  else if isWildcard scope then
    if location.isEmpty then .ok scope else .error (.wildcardWithLocation scope)
  else trimmed .scope scope

/-- The registry that a table describes. -/
def ofTable : Toml → Except Fault Registry
  | .table members =>
    match (Keyed.get? "location" members).getD (.string []),
        (Keyed.get? "prefix" members).getD (.string []) with
    | .string givenLocation, .string givenScope => do
      let location ← ownLocation givenScope givenLocation
      let scope ← ownScope givenScope location
      match (Keyed.get? "mirror" members).getD (.array []) with
      | .array items => .ok ⟨scope, location, ← items.mapM (readMirror scope)⟩
      | _ => .error (.mirrorsNotArray scope)
    | _, _ => .error .namesNotStrings
  | _ => .error .notTable

end Registry

end PullAuth
