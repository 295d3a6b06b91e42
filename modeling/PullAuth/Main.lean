import PullAuth.CommandLine.Run
import PullAuth.Json.Reader

/-!
The program. It looks at the files that a command line concerns, carries the command line out on
what it saw, and brings the files to the state that came out. The cluster is not asked from here:
the file that the variable `PULL_AUTH_LISTING` names holds its listing of the secrets.
-/
namespace PullAuth.Main

def toHost (t : Text) : String := String.ofList (t.map fun c => Char.ofNat c.toNat)

/-! ## Looking -/

def look (path : Path) : IO (Option Node) := do
  try
    let content ← IO.FS.readBinFile (toHost path.toText)
    return some (.file 0o644 content.toList)
  catch
    | .inappropriateType .. => return some (.directory 0o755)
    | _ => return none

def withPath (tree : Tree) (path : Path) : IO Tree := do
  match ← look path, tree.locate path.toText with
  | some node, .ok at_ => return if at_.isEmpty then tree else tree.set at_ node
  | _, _ => return tree

/-- A path and those of the directories around it, the outermost first. -/
def around (path : Path) : List Path :=
  (List.range path.names.length).map fun n => ⟨path.root, path.names.take (n + 1)⟩

/-- The tree with what is at several paths and around them. -/
def withPaths (tree : Tree) (paths : List Path) : IO Tree :=
  (paths.flatMap around).eraseDups.foldlM withPath tree

/-- The files in a directory whose names end like those of drop-in files. -/
def dropIns (dir : Path) : IO (List Path) := do
  try
    let entries ← (← IO.FS.realPath (toHost dir.toText)).readDir
    let names := entries.toList.map fun entry => Text.ofString entry.fileName
    return (names.filter (Text.endsWith · Registry.dropInEnding)).map dir.child
  catch _ => return []

def valuesOf (names : List Text) : IO (Keyed Text) :=
  names.filterMapM fun name => do
    return (← IO.getEnv (toHost name)).map fun value => (name, Text.ofString value)

def listingVariable : Text := "PULL_AUTH_LISTING"

/-- How the cluster answers, from its listing in a file. -/
def answerIn (environment : Keyed Text) : IO Cluster.Answer := do
  match Keyed.get? listingVariable environment with
  | none => return .noClient "no listing of secrets is named"
  | some path =>
    match ← look (Path.ofText path) with
    | some (.file _ content) =>
      return .ofListing (((Utf8.decode .strict content).bind Json.read?).getD .null)
    | _ => return .refused

def host : Host where
  languageVersion := []
  machine := []
  implementation := []
  system := []
  requirements := none
  versions := []

/-- The paths that the settings and the journal concern. -/
def concerned (parameters : Parameters) : List Path :=
  let s := Settings.ofLayers [parameters]
  let file := (CommandLine.journalPath? parameters).toList
  ([s.registriesFile, s.registriesDir, s.authDir, s.globalFile] ++ file).map Path.ofText ++
    [Cluster.environmentPath s.serverDir]

/-- The tree that a command line concerns. -/
def survey (c : Command) (tree : Tree) : IO Tree := do
  match CommandLine.task c tree with
  | .provide parameters =>
    let dir := Path.ofText (Settings.ofLayers [parameters]).registriesDir
    withPaths tree (concerned parameters ++ (← dropIns dir))
  | _ => return tree

/-- The variables that the file with the address of the server refers to. -/
def referenced (c : Command) (tree : Tree) : List Text :=
  match CommandLine.task c tree with
  | .provide parameters =>
    match Cluster.origin tree (Settings.ofLayers [parameters]).serverDir with
    | .ok (.lines list) => EnvFile.referencedNames (EnvFile.bindings list)
    | _ => []
  | _ => []

/-! ## Changing -/

/-- Three of the permissions. -/
def accessOf (n : Nat) : IO.AccessRight := ⟨n / 4 % 2 == 1, n / 2 % 2 == 1, n % 2 == 1⟩

def rightsOf (mode : Nat) : IO.FileRight :=
  ⟨accessOf (mode / 64), accessOf (mode / 8), accessOf mode⟩

def pathOf (at_ : Location) : Path := ⟨"/", at_.filterMap (Utf8.decode .keeping)⟩

/-- Writes a file beside a path and puts it there, or leaves nothing behind. -/
def replace (path : Path) (mode : Nat) (content : Bytes) : IO Unit := do
  let temporary := toHost (path.parent.child (AuthFile.temporaryName path.name 0)).toText
  try
    IO.FS.writeBinFile temporary ⟨content.toArray⟩
    IO.setAccessRights temporary (rightsOf mode)
    IO.FS.rename temporary (toHost path.toText)
  catch error =>
    IO.FS.removeFile temporary
    throw error

/-- Puts content at the end of a file. -/
def extend (path : Path) (content : Bytes) : IO Unit := do
  let handle ← IO.FS.Handle.mk (toHost path.toText) .append
  handle.write ⟨content.toArray⟩

def create (path : Path) (mode : Nat) : IO Unit := do
  IO.FS.createDir (toHost path.toText)
  IO.setAccessRights (toHost path.toText) (rightsOf mode)

/-- The content that was put at the end of a file, if nothing else was done to it. -/
def added? (before : Option Node) (mode : Nat) (content : Bytes) : Option Bytes :=
  match before with
  | some (.file oldMode old) => if oldMode = mode then List.isPrefixOf? old content else none
  | _ => none

/-- Brings what is at a location to its new state. -/
def update (before : Option Node) (at_ : Location) (node : Node) : IO Unit :=
  let path := pathOf at_
  match node with
  | .directory mode => create path mode
  | .file mode content =>
    match added? before mode content with
    | some added => extend path added
    | none => replace path mode content

/-- Brings the files to the state of a tree, the outer directories first. -/
def apply (before after : Tree) : IO Unit :=
  let changed := after.nodes.filter fun (at_, node) => before.node? at_ ≠ some node
  let ordered := changed.mergeSort fun a b => a.1.length ≤ b.1.length
  ordered.forM fun (at_, node) => update (before.node? at_) at_ node

/-! ## Telling -/

/-- Tells how a command line ended. -/
def report (head : Letterhead) (ending : Ending) : IO Unit := do
  for entry in ending.journal do IO.eprint (toHost (entry.line head))
  if ending.exitCode = 2 then IO.eprintln "The command line is misused, --help tells the options."
  if ending.breakdown.isSome then IO.eprintln "The invocation broke down."
  IO.print (toHost ending.output)

/-- Carries out a command line on the files that it concerns. -/
def perform (c : Command) (tree : Tree) : IO UInt32 := do
  let ending := c.run tree
  try
    apply tree ending.tree
    report c.head ending
    return ending.exitCode.toUInt32
  catch error =>
    IO.eprintln (toString error)
    return 1

/-- The variables of the environment that are known to count. -/
def countingVariables : List Text :=
  Cluster.hostVariable :: Cluster.portVariable :: listingVariable :: ("HOME" : Text) ::
    CommandLine.completionVariable programName ::
    CommandLine.Parameter.all.map CommandLine.Parameter.environmentVariable

/-- The tree with the working directory and those around it. -/
def startingTree : IO Tree := do
  let here := Path.ofText (Text.ofString (toString (← IO.currentDir)))
  let names := here.names.map fun name => (Utf8.encode? name).getD []
  withPaths { here := names } [here]

end PullAuth.Main

open PullAuth PullAuth.Main in
def main (arguments : List String) : IO UInt32 := do
  let environment ← valuesOf countingVariables
  let c : Command :=
    { arguments := arguments.map Text.ofString, environment, input := []
      answer := ← answerIn environment, host }
  let tree ← survey c (← startingTree)
  let c := { c with environment := ← valuesOf (countingVariables ++ referenced c tree) }
  let input ← if c.readsInput tree then (← IO.getStdin).readToEnd else pure ""
  perform { c with input := Text.ofString input } tree
