import PullAuth.Json.Printer
import PullAuth.Text.Blank

/-!
The description of the release: its version, the host it runs on and the versions of the packages
it depends on. What says nothing is left out.
-/
namespace PullAuth

/-- The host of a release. -/
structure Host where
  /-- The version of the language of the host. -/
  languageVersion : Text
  machine : Text
  implementation : Text
  system : Text
  /-- The requirements of the installed package; none if it is not installed. -/
  requirements : Option (List Text)
  versions : Keyed Text

/-- The description of a release. -/
structure Release where
  version : Text
  languageVersion : Text
  implementation : Text
  platform : Text
  /-- The packages it depends on, each with its version. -/
  dependencies : List Text
  deriving DecidableEq

namespace Release

def currentVersion : Text := "0.1.0"

/-- The mark of a requirement that holds only for an extra of the package. -/
def extraMark : Text := "extra =="

/-- The characters that end the name in a requirement, one after another. -/
def nameEnds : Text := "<>=!~ ["

/-- A text up to a character, or the whole. -/
def upTo (c : CodePoint) (t : Text) : Text := t.takeWhile fun d => d ≠ c

/-- The name of the package in a requirement. -/
def packageName (requirement : Text) : Text :=
  nameEnds.foldl (fun name c => upTo c name) (Text.trim CodePoint.isBlank (upTo ';' requirement))

/-- The package of a requirement with its version. -/
def dependency (versions : Keyed Text) (requirement : Text) : Text :=
  let name := packageName requirement
  name ++ " " ++ (Keyed.get? name versions).getD "unknown"

/-- The release on a host. -/
def ofHost (host : Host) : Release where
  version := currentVersion
  languageVersion := host.languageVersion
  implementation := host.implementation
  platform := host.system ++ "/" ++ host.machine
  dependencies :=
    ((host.requirements.getD []).filter fun r => (Text.cutAt? extraMark r).isNone).map
      (dependency host.versions)

/-- The parts of the description that are texts, under their names. -/
def textParts (r : Release) : Keyed Text :=
  [("version", r.version), ("python_version", r.languageVersion),
    ("implementation", r.implementation), ("platform", r.platform)]

def dependenciesKey : Text := "dependencies"

def toJson (r : Release) : Json :=
  .object (((r.textParts.filter fun part => !part.2.isEmpty).map fun part =>
      (part.1, Json.string part.2)) ++
    if r.dependencies.isEmpty then []
    else [(dependenciesKey, .array (r.dependencies.map Json.string))])

def document (r : Release) : Text := r.toJson.write (.indented "  ")

def width (members : Keyed Json) : Nat :=
  members.foldl (fun n member => max n member.1.length) 0 + 2

/-- The lines for a member: a name with a value beside it, or with items below it. -/
def memberLines (width : Nat) (member : Text × Json) : List Text :=
  match member.2 with
  | .array items => (member.1 ++ ":") :: items.map fun item => "  " ++ item.text?.getD []
  | value =>
    let name := member.1 ++ ":"
    [name ++ List.replicate (width - name.length) (' ' : CodePoint) ++ value.text?.getD []]

def lines (r : Release) : Text :=
  let members := r.toJson.members
  Text.join "\n" (members.flatMap (memberLines (width members)))

end Release

end PullAuth
