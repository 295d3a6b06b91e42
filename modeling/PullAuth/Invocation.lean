import PullAuth.AuthFile
import PullAuth.Registry.Load
import PullAuth.Request
import PullAuth.Settings

/-!
One invocation of the provider. Without a file of registries nothing is done. Otherwise the request
is read, the namespace is taken from its token, and if the image has mirrors the secrets of the
namespace are retrieved and its credential file is written. Every failure ends the invocation; the
response is written only if there was none.
-/
namespace PullAuth

/-- How an invocation ends when nothing fails. -/
inductive Outcome where
  | noRegistries
  | noMirrors
  | noCredentials
  /-- The credential file at the path was written. -/
  | written (path : Path)
  deriving DecidableEq

namespace Outcome

def name : Outcome → Text
  | noRegistries => "no-registries-conf"
  | noMirrors => "no-mirrors"
  | noCredentials => "no-credentials"
  | written _ => "written"

def path? : Outcome → Option Path
  | written path => some path
  | _ => none

end Outcome

/-- What an invocation is given besides the file tree. -/
structure Invocation where
  settings : Settings
  /-- The home directory, for when no global file is named. -/
  home : Option Text
  input : Text
  answer : Cluster.Answer

/-- What an invocation leaves behind. -/
structure Report where
  outcome : Except Failure Outcome
  /-- The files and the journal. -/
  desk : Desk
  calls : List Cluster.Call
  /-- Whether anything was read from the input. -/
  inputRead : Bool

/-- What a request turns out to ask for. -/
structure Demand where
  request : Request
  namespaceName : Text
  mirrors : List Text

namespace Report

def tree (r : Report) : Tree := r.desk.tree

/-- What is written as the response: nothing after a failure. -/
def output (r : Report) : Text :=
  match r.outcome with
  | .ok _ => Response.line
  | .error _ => []

end Report

namespace Invocation

def registriesPath (i : Invocation) : Path := Path.ofText i.settings.registriesFile

def hasRegistries (i : Invocation) (tree : Tree) : Except Failure Bool :=
  match tree.stat i.registriesPath.toText with
  | .ok _ => .ok true
  | .error (.system .notFound) => .ok false
  | .error fault =>
    .error (.ofPath (fun e => .configuration (.inaccessible i.registriesPath e)) fault)

def request (i : Invocation) : Except Failure Request := Request.ofText i.input

/-- The namespace that a token asserts. -/
def asserted (token : Text) : Except Failure Text :=
  (Token.namespaceOf token).mapError .ofToken

def matching (i : Invocation) (image : Text) : Work (List Text) := do
  Work.note [.info ("Matching mirrors for registry config: " ++ i.registriesPath.toText)]
  Registry.matching i.registriesPath.toText i.settings.registriesDir image

def demanding (i : Invocation) : Work Demand := do
  Work.note [.info "Reading from stdin"]
  let request ← Work.of i.request
  Work.note [.info ("Parsed credential provider request for image " ++ request.image.quoted)]
  let namespaceName ← Work.of (asserted request.token)
  Work.note [.debug ("Token asserts namespace " ++ namespaceName.quoted)]
  if namespaceName.isEmpty then throw (.validation .emptyNamespaceClaim)
  let mirrors ← i.matching request.image
  return ⟨request, namespaceName, mirrors⟩

/-- The order for the credential file of a demand. -/
def order (i : Invocation) (d : Demand) (secrets : List Secret) : AuthFile.Order where
  secrets := some secrets
  home := i.home
  globalFile := i.settings.globalFile
  dir := i.settings.authDir
  namespaceName := d.namespaceName
  image := d.request.image
  mirrors := d.mirrors

/-- The outcome of writing a credential file: that there is nothing to write is no failure. -/
def outcomeOf : Except Failure Path → Except Failure Outcome
  | .ok path => .ok (.written path)
  | .error .noCredentials => .ok .noCredentials
  | .error failure => .error failure

/-- The entry of the journal about an outcome of writing a credential file. -/
def outcomeEntries : Except Failure Path → List Entry
  | .ok path => [.info ("Auth file path: " ++ path.toText)]
  | .error .noCredentials =>
    [.info ("Not writing an auth file: " ++ (Failure.noCredentials.message?).getD [])]
  | .error _ => []

/-- Writes the credential file of a demand for which the secrets are known. -/
def writing (i : Invocation) (d : Demand) (secrets : List Secret) : Work Outcome := fun desk =>
  let (result, desk) := AuthFile.creating (i.order d secrets) desk
  (outcomeOf result, desk.note (outcomeEntries result))

/-- Retrieves the secrets for a demand and writes its credential file. -/
def delivering (i : Invocation) (d : Demand) : Work Outcome := do
  Work.note (.info ("Getting secrets from namespace: " ++ d.namespaceName) ::
    Cluster.retrievalJournal i.answer)
  let secrets ← Work.of (Cluster.retrieve i.answer)
  Work.note [.info ("Got " ++ Text.ofNat secrets.length ++ " secret(s)")]
  i.writing d secrets

/-- Whether reading the whole input takes anything from it. -/
def hasInput (i : Invocation) : Bool := !i.input.isEmpty

/-- Does what a demand asks for, unless the image has no mirrors. -/
def fulfil (i : Invocation) (d : Demand) (desk : Desk) : Report :=
  if d.mirrors.isEmpty then
    let desk := desk.note [.info "No mirrors found, will not write any auth file"]
    ⟨.ok .noMirrors, desk, [], i.hasInput⟩
  else
    let (outcome, desk) := i.delivering d (desk.note
      [.info ("Got mirror(s) for " ++ d.request.image.quoted ++ ": " ++
        Text.join ", " d.mirrors)])
    ⟨outcome, desk,
      Cluster.calls i.answer d.request.token d.namespaceName i.settings.timeout, i.hasInput⟩

def carryOut (i : Invocation) (desk : Desk) : Report :=
  match i.hasRegistries desk.tree with
  | .error failure => ⟨.error failure, desk, [], false⟩
  | .ok false =>
    let desk := desk.note
      [.info ("Registries conf path " ++ i.registriesPath.toText ++ " does not exist, stopping")]
    ⟨.ok .noRegistries, desk, [], false⟩
  | .ok true =>
    match i.demanding desk with
    | (.error failure, desk) => ⟨.error failure, desk, [], i.hasInput⟩
    | (.ok d, desk) => i.fulfil d desk

/-- Carries an invocation out without a file for its journal. -/
def run (i : Invocation) (tree : Tree) : Report := i.carryOut { tree }

end Invocation

end PullAuth
