import PullAuth.CommandLine.Values
import PullAuth.Invocation
import PullAuth.Release

/-!
Carrying out a command line. It describes the options or the release, or it finds the address of the
server and carries out an invocation, whose journal goes to a file if one is named. The exit code is
two for a misuse of the command line and one for every other failure. A shell that sets a variable
of its own has the command line completed instead.
-/
namespace PullAuth

/-- The name that the program is called by, unless it goes under another one. -/
def programName : Text := "crio-credential-provider"

/-- A command line and what surrounds it. -/
structure Command where
  arguments : List Text
  environment : Keyed Text
  input : Text
  answer : Cluster.Answer
  host : Host
  /-- What the lines of a journal file begin with. -/
  head : Letterhead := {}
  name : Text := programName
  /-- What is written for a shell that completes a command line, if it can be told. -/
  completion : Text → Option Text := fun _ => none

/-- How a command line ends. -/
structure Ending where
  exitCode : Nat
  output : Text
  tree : Tree
  breakdown : Option Breakdown := none
  /-- The addresses of servers that clients were prepared for. -/
  addresses : List Text := []
  calls : List Cluster.Call := []
  /-- The entries of the journal that are of the level asked for. -/
  journal : List Entry := []

/-- The ending with the files of a desk and those entries of its journal that are of a level. -/
def Ending.leaving (e : Ending) (level : Level) (desk : Desk) : Ending :=
  { e with
    tree := desk.tree
    journal := desk.journal.filter fun entry => level.rank ≤ entry.level.rank }

namespace CommandLine

/-! ## The task -/

/-- What a command line asks for. -/
inductive Task where
  /-- What a shell needs to complete it. -/
  | complete (instruction : Text)
  | refuse (refusal : Refusal)
  | help
  /-- A description of the release, as lines or as a document. -/
  | describe (asDocument : Bool)
  | provide (parameters : Parameters)

def taskOf (parameters : Parameters) : Task :=
  if isSet parameters .help then .help
  else if isSet parameters .versionDocument then .describe true
  else if isSet parameters .version then .describe false
  else .provide parameters

def taskOfArguments (c : Command) (tree : Tree) : Task :=
  match Arguments.read? c.arguments with
  | none => .refuse .misuse
  | some arguments =>
    match parametersOf tree arguments c.environment with
    | .error refusal => .refuse refusal
    | .ok parameters => taskOf parameters

def underscored (c : CodePoint) : CodePoint := if c = '-' || c = '.' then '_' else c

/-- The variable of the environment in which a shell asks for what it needs. -/
def completionVariable (name : Text) : Text :=
  (("_" : Text) ++ name.map underscored ++ "_COMPLETE").map Parameter.capital

/-- What a shell asks for, if one does. An empty variable does not count. -/
def instruction? (c : Command) : Option Text :=
  (Keyed.get? (completionVariable c.name) c.environment).filter fun t => !t.isEmpty

def task (c : Command) (tree : Tree) : Task :=
  match instruction? c with
  | some instruction => .complete instruction
  | none => taskOfArguments c tree

/-! ## Descriptions -/

/-- What stands for the value of a parameter. -/
def placeholder (p : Parameter) : Text :=
  match p.sort with
  | .flag => []
  | .level =>
    let words := Level.all.map Level.name
    " [" ++ Text.join "|" (words ++ words.map (List.map small)) ++ "]"
  | .count => " INTEGER RANGE"
  | .file => " FILE"
  | .directory => " DIRECTORY"

/-- The options of a parameter, the short one first. -/
def usageTerm (p : Parameter) : Text :=
  (if p = .logLevel then shortLevel ++ ", " else []) ++ p.option ++ placeholder p

/-- What a parameter is for; empty where its name says it. -/
def purpose : Parameter → Text
  | .setting .timeout => "Seconds to wait for the secret listing"
  | .setting .registriesDir => "Directory of registries.conf drop-in files"
  | .version => "Display version information"
  | .versionDocument => "Display version information as JSON"
  | .help => "Show this message and exit."
  | _ => []

/-- The standard value of a setting and the range of a number. -/
def standardNote : Parameter → Text
  | .setting s =>
    let range : Text := if s = .timeout then "; x>=1" else []
    "[default: " ++ (s.standard.text?.getD (s.standard.write .oneLine)) ++ range ++ "]"
  | _ => []

/-- The most characters in a line of the right column. -/
def notesWidth : Nat := 44

/-- What stands beside a parameter: its purpose and its standard value, in one line if they fit. -/
def usageNotes (p : Parameter) : List Text :=
  let parts := [purpose p, standardNote p].filter fun part => !part.isEmpty
  let line := Text.join "  " parts
  if line.isEmpty then [] else if line.length ≤ notesWidth then [line] else parts

/-- Where the right column begins. -/
def notesColumn : Nat := 34

def indented (width : Nat) (t : Text) : Text :=
  t ++ List.replicate (width - t.length) (' ' : CodePoint)

/-- The lines for a parameter: the notes begin beside the options, or below those that leave no two
blanks before the right column. -/
def usageLines (p : Parameter) : List Text :=
  let term : Text := "  " ++ usageTerm p
  let below (notes : List Text) := notes.map (indented notesColumn [] ++ ·)
  match usageNotes p with
  | [] => [term]
  | note :: notes =>
    if term.length + 2 ≤ notesColumn then (indented notesColumn term ++ note) :: below notes
    else term :: below (note :: notes)

def usageHead (name : Text) : List Text := [
  "Usage: " ++ name ++ " [OPTIONS]",
  "",
  "  Kubelet image credential provider writing namespaced auth files for CRI-O.",
  "",
  "Options:"]

/-- The parameters with their options; the one that asks for this description comes last. -/
def usage (name : Text) : Text :=
  let listed := Parameter.all.drop 1 ++ Parameter.all.take 1
  Text.join "\n" (usageHead name ++ listed.flatMap usageLines) ++ "\n"

def description (host : Host) (asDocument : Bool) : Text :=
  let release := Release.ofHost host
  (if asDocument then release.document else release.lines) ++ "\n"

/-! ## The journal -/

def journalLevel (parameters : Parameters) : Level :=
  (((Parameters.find? Parameter.logLevel.name [parameters]).bind Json.text?).bind
    readLevel?).getD .info

def journalPath? (parameters : Parameters) : Option Text :=
  (Parameters.find? Parameter.logFile.name [parameters]).bind Json.text?

def journalFile? (c : Command) (parameters : Parameters) : Option JournalFile :=
  (journalPath? parameters).map fun path =>
    ⟨path, JournalFile.thresholdFor (journalLevel parameters), c.head⟩

/-- The last entry of the journal of an invocation. -/
def closing? : Except Failure Outcome → Option Entry
  | .ok outcome => some (.debug ("Credential provider finished: " ++ outcome.name))
  | .error failure =>
    failure.message?.map fun m => .critical ("Failed to run credential provider: " ++ m)

/-! ## The invocation -/

def breakdown? : Except Failure Outcome → Option Breakdown
  | .error (.breakdown cause) => some cause
  | _ => none

def exitCode : Except Failure Outcome → Nat
  | .ok _ => 0
  | .error _ => 1

def invocation (c : Command) (parameters : Parameters) : Invocation where
  settings := Settings.ofLayers [parameters]
  home := Keyed.get? "HOME" c.environment
  input := c.input
  answer := c.answer

def failed (tree : Tree) (failure : Failure) : Ending where
  exitCode := 1
  output := []
  tree := tree
  breakdown := breakdown? (.error failure)

def endingOf (address : Text) (report : Report) : Ending where
  exitCode := exitCode report.outcome
  output := report.output
  tree := report.tree
  breakdown := breakdown? report.outcome
  addresses := [address]
  calls := report.calls

/-- Begins with what parameters ask for and finds the server. -/
def starting (c : Command) (parameters : Parameters) : Work Text := do
  let settings := (invocation c parameters).settings
  Work.note (settings.journal ++ [.info "Running credential provider"])
  Cluster.finding c.environment settings.serverDir

/-- Finds the server and carries out the invocation that parameters ask for. -/
def providing (c : Command) (parameters : Parameters) (desk : Desk) : Ending :=
  let i := invocation c parameters
  let level := journalLevel parameters
  match starting c parameters desk with
  | (.error failure, desk) => (failed desk.tree failure).leaving level desk
  | (.ok address, desk) =>
    let report := i.carryOut desk
    (endingOf address report).leaving level
      (report.desk.note (closing? report.outcome).toList)

/-- Opens the journal and carries out what parameters ask for. -/
def provide (c : Command) (parameters : Parameters) (tree : Tree) : Ending :=
  match Desk.withFile? (journalFile? c parameters) tree with
  | .error fault => failed tree (.unexpected fault)
  | .ok desk => providing c parameters desk

def completed (tree : Tree) : Option Text → Ending
  | some text => { exitCode := 0, output := text, tree }
  | none => { exitCode := 1, output := [], tree }

def refused (tree : Tree) : Refusal → Ending
  | .misuse => { exitCode := 2, output := [], tree }
  | .breakdown cause => failed tree (.breakdown cause)

end CommandLine

namespace Command

def run (c : Command) (tree : Tree) : Ending :=
  match CommandLine.task c tree with
  | .complete instruction => CommandLine.completed tree (c.completion instruction)
  | .refuse refusal => CommandLine.refused tree refusal
  | .help => { exitCode := 0, output := CommandLine.usage c.name, tree }
  | .describe asDocument =>
    { exitCode := 0, output := CommandLine.description c.host asDocument, tree }
  | .provide parameters => CommandLine.provide c parameters tree

/-- Whether carrying out a command line takes the text on the input into account: its journal can be
opened, the server is found and there is a file of registries. -/
def readsInput (c : Command) (tree : Tree) : Bool :=
  match CommandLine.task c tree with
  | .provide parameters =>
    match Desk.withFile? (CommandLine.journalFile? c parameters) tree with
    | .error _ => false
    | .ok desk =>
      match CommandLine.starting c parameters desk with
      | (.error _, _) => false
      | (.ok _, desk) =>
        ((CommandLine.invocation c parameters).hasRegistries desk.tree).toOption.getD false
  | _ => false

end Command

end PullAuth
