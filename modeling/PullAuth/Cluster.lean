import PullAuth.Address
import PullAuth.Desk
import PullAuth.EnvFile.Interpolation
import PullAuth.Secret.Harvest

/-!
The cluster that holds the secrets: the address of its server, which an environment file in a
directory of the node tells, and the listing of the secrets of a namespace.
-/
namespace PullAuth.Cluster

/-! ## The address -/

def defaultAddress : Text := "localhost:6443"

def environmentFile : Text := "apiserver-url.env"

def hostVariable : Text := "KUBERNETES_SERVICE_HOST"

def portVariable : Text := "KUBERNETES_SERVICE_PORT"

/-- The address that the variables tell; those of the environment come before those of a file. -/
def addressIn (environment : Keyed Text) (bindings : List EnvFile.Binding) : Text :=
  let values := EnvFile.resolve environment bindings
  EnvFile.valueOf environment values hostVariable ++ ":" ++
    EnvFile.valueOf environment values portVariable

def environmentPath (dir : Text) : Path := (Path.ofText dir).child environmentFile

/-- Where the address comes from. -/
inductive Origin where
  /-- The directory is relative. -/
  | relativeDirectory (dir : Text)
  | noFile (path : Path)
  /-- The lines of the file, or the environment alone where a directory stands in its place. -/
  | lines (list : List EnvFile.Line)

/-- Where the address comes from if `dir` is the directory with the file. -/
def origin (tree : Tree) (dir : Text) : Except Failure Origin :=
  if !(Path.ofText dir).isAbsolute then .ok (.relativeDirectory dir)
  else
    let path := environmentPath dir
    match tree.find? path.toText with
    | .error fault => .error (.unexpected fault)
    | .ok none => .ok (.noFile path)
    | .ok (some (.directory _)) => .ok (.lines [])
    | .ok (some (.file _ content)) =>
      match EnvFile.read? content with
      | some list => .ok (.lines list)
      | none => .error (.breakdown .undecodable)

def Origin.address (environment : Keyed Text) : Origin → Text
  | relativeDirectory _ => defaultAddress
  | noFile _ => defaultAddress
  | lines list => addressIn environment (EnvFile.bindings list)

def address (tree : Tree) (environment : Keyed Text) (dir : Text) : Except Failure Text :=
  (origin tree dir).map (Origin.address environment)

def lineWarning? : EnvFile.Line → Option Entry
  | .unreadable =>
    some ⟨.warning, "Passing over a line that cannot be read", .environmentFiles⟩
  | _ => none

def Origin.warnings : Origin → List Entry
  | lines list => list.filterMap lineWarning?
  | _ => []

def Origin.entry (environment : Keyed Text) (o : Origin) : Entry :=
  match o with
  | relativeDirectory dir =>
    .warning ("Provided API server config dir " ++ dir.quoted ++ " is not absolute")
  | noFile path =>
    .info ("Unable to find env file " ++ path.toText ++ ", using " ++ defaultAddress)
  | lines _ => .info ("Using API server host: " ++ o.address environment)

def finding (environment : Keyed Text) (dir : Text) : Work Text := do
  let found ← Work.look (origin · dir)
  Work.note (found.warnings ++ [found.entry environment])
  return found.address environment

/-! ## The client -/

/-- The settings of a client. -/
structure Client where
  url : Text
  /-- Whether the certificate of the server has to cover its address. -/
  verifiesCertificate : Bool
  /-- The authorization that goes with every request, if one does. -/
  authorization : Option Text
  deriving DecidableEq

/-- The client of a server that acts for the bearer of a token; without a token it acts for nobody.
The address on the node is not covered by the certificate of the server. -/
def clientOf (host token : Text) : Except Breakdown Client :=
  if Address.isWellFormed host then
    .ok ⟨"https://" ++ host, false, if token.isEmpty then none else some ("Bearer " ++ token)⟩
  else .error .malformedAddress

/-! ## The listing -/

/-- A request to the cluster. -/
inductive Call where
  /-- A client for the bearer of a token. -/
  | client (token : Text)
  | list (namespaceName selector : Text) (timeout : Json)

/-- How the cluster answers. -/
inductive Answer where
  | noClient (reason : Text)
  | secrets (list : List Listed)
  /-- The listing is refused or does not come in time. -/
  | refused
  /-- The client breaks down. -/
  | broken

/-- The answer with the secrets of a listing, which stand in the array `items`. -/
def Answer.ofListing (listing : Json) : Answer :=
  match listing.member? "items" with
  | some (.array items) => secrets (items.map Listed.ofJson)
  | _ => refused

def defaultTimeout : Json := .int 60

/-- The selector of the secrets that carry credentials. -/
def selector : Text := "type=" ++ Harvest.secretType

def calls (answer : Answer) (token namespaceName : Text) (timeout : Json) : List Call :=
  match answer with
  | .noClient _ => [.client token]
  | _ => [.client token, .list namespaceName selector timeout]

def retrieve (answer : Answer) : Except Failure (List Secret) :=
  match answer with
  | .noClient reason => .error (.retrieval (.connection reason))
  | .refused => .error (.retrieval .listing)
  | .broken => .error (.breakdown .client)
  | .secrets list => list.mapM Listed.toSecret

def retrievalJournal (answer : Answer) : List Entry :=
  match answer with
  | .secrets list => Listed.allWarnings list
  | _ => []

end PullAuth.Cluster
