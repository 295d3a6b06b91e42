import PullAuth.Bytes.Sha256
import PullAuth.Desk
import PullAuth.Document
import PullAuth.Merge

/-!
The credential file of a namespace and an image. It lies in a directory of its own under the name
of the namespace and the digest of the image. It is written to a temporary file beside it, which
then takes its place, so that no other reader sees a part of it and a failure leaves every file as
it was.
-/
namespace PullAuth.AuthFile

/-- The SHA-256 digest of a text in hexadecimal digits; none if a surrogate is in it. -/
def digest? (t : Text) : Option Text :=
  (Utf8.encode? t).map fun bs => (Sha256.digest bs).toHex

def fileName (namespaceName digest : Text) : Text := namespaceName ++ "-" ++ digest ++ ".json"

/-- The path of the file in a directory, which is absolute. -/
def path (dir namespaceName image : Text) : Except Failure Path :=
  if namespaceName.isEmpty then .error (.validation .emptyNamespace)
  else if image.isEmpty then .error (.validation .emptyImage)
  else
    let d := Path.ofText dir
    if !d.isAbsolute then .error (.validation (.relativeDirectory d))
    else match digest? image with
      | none => .error (.breakdown .unencodable)
      | some digest => .ok (d.join (Path.ofText (fileName namespaceName digest)))

/-! ## Writing -/

/-- Steps on a file tree that keep what was done when one fails. -/
abbrev Steps := ExceptT PathFault (StateM Tree)

def Steps.operation (f : Tree → Except PathFault Tree) : Steps Unit := fun tree =>
  match f tree with
  | .ok tree => (.ok (), tree)
  | .error fault => (.error fault, tree)

/-- Makes a directory, or finds one in its place. -/
def ensureDirectory (mode : Nat) (path : Text) : Steps Unit := fun tree =>
  match tree.makeDirectory mode path with
  | .ok tree => (.ok (), tree)
  | .error (.system .notFound) => (.error (.system .notFound), tree)
  | .error (.system error) =>
    match tree.stat path with
    | .ok (.directory _) => (.ok (), tree)
    | _ => (.error (.system error), tree)
  | .error fault => (.error fault, tree)

/-- Makes the directory whose names are given from the last to the first, and the missing ones
around it, which are open to everyone. -/
def ensureDirectories (root : Text) (mode : Nat) : List Text → Steps Unit
  | [] => ensureDirectory mode (Path.toText ⟨root, []⟩)
  | name :: outer => fun tree =>
    let path := Path.toText ⟨root, (name :: outer).reverse⟩
    match ensureDirectory mode path tree with
    | (.error (.system .notFound), tree) =>
      match ensureDirectories root 0o777 outer tree with
      | (.ok (), tree) => ensureDirectory mode path tree
      | (.error fault, tree) => (.error fault, tree)
    | outcome => outcome

/-- The permissions of the directory: all for the owner, none for others. -/
def directoryMode : Nat := 0o700

/-- The permissions of the file: reading and writing for the owner, none for others. -/
def fileMode : Nat := 0o600

def temporaryName (name : Text) (number : Nat) : Text :=
  "." ++ name ++ "." ++ Text.ofHex 8 number

/-- A temporary name that is not taken in the directory: one more number is tried than the tree
has files. -/
def freshName (tree : Tree) (parent : Path) (name : Text) : Text :=
  let free (number : Nat) : Bool :=
    match tree.stat (parent.child (temporaryName name number)).toText with
    | .ok _ => false
    | .error _ => true
  temporaryName name (((List.range (tree.nodes.length + 1)).find? free).getD 0)

/-- Writes content to a file. Content that there is not enough room for is refused, and the part
that there was room for stays behind. -/
def fill (path : Text) (content : Bytes) : Steps Unit := do
  let room := (← get).roomFor content
  Steps.operation (·.writeFile path content)
  if room < content.length then throw (.system .noRoom)

/-- Writes content to the file at a path through a temporary file beside it. -/
def replaceFile (path : Path) (content : Bytes) : Steps Unit := do
  let temporary := (path.parent.child (freshName (← get) path.parent path.name)).toText
  Steps.operation (·.createFile fileMode temporary)
  let finish : Steps Unit := do
    fill temporary content
    Steps.operation (·.setMode temporary fileMode)
    Steps.operation (·.rename temporary path.toText)
  tryCatch finish fun fault => do
    Steps.operation (·.removeFile temporary)
    throw fault

/-- Writes content to the file at a path, in a directory that is made if it is missing. -/
def persist (path : Path) (content : Bytes) : Steps Unit := do
  ensureDirectories path.root directoryMode path.parent.names.reverse
  replaceFile path content

/-- Whether a document has anything to write: its entries are not empty. -/
def hasEntries (contents : Document) : Bool :=
  ((contents.member? CredentialFile.entriesKey).map Document.isPresent).getD false

/-- The bytes of a document in a file: indented by tabs, with sorted keys. -/
def bytesOf (contents : Document) : Except Document.Fault Bytes :=
  (contents.write (.indented "\t") true).map Bytes.ofAscii

def breakdownOf : Document.Fault → Breakdown
  | .unencodable => .unencodable
  | .formless => .formless

/-- What is to be written for a namespace and an image, and the path that it goes to. -/
def draft (dir namespaceName image : Text) (contents : Document) :
    Except Failure (Path × Bytes) := do
  let p ← path dir namespaceName image
  if !contents.isObject then throw (.breakdown .unusable)
  if !hasEntries contents then throw .noCredentials
  let bytes ← (bytesOf contents).mapError fun fault => .breakdown (breakdownOf fault)
  return (p, bytes)

/-- Writes the credential file of a namespace and an image. -/
def write (dir namespaceName image : Text) (contents : Document) : Tree →
    Except Failure Path × Tree := fun tree =>
  match draft dir namespaceName image contents with
  | .error failure => (.error failure, tree)
  | .ok (p, bytes) =>
    match persist p bytes tree with
    | (.ok (), tree) => (.ok p, tree)
    | (.error fault, tree) => (.error (.ofPath (.persistence p ·) fault), tree)

/-! ## Creating -/

/-- What goes into a credential file besides the file tree. -/
structure Order where
  /-- The secrets of the namespace, if they are known. -/
  secrets : Option (List Secret)
  /-- The home directory, for when no global file is named. -/
  home : Option Text
  /-- The path of the global file. -/
  globalFile : Text
  dir : Text
  namespaceName : Text
  image : Text
  mirrors : List Text

/-- The content of the file that an order asks for. -/
def content (order : Order) (tree : Tree) : Except Failure CredentialFile := do
  if order.namespaceName.isEmpty then throw (.validation .emptyNamespace)
  let some secrets := order.secrets | throw (.validation .noSecrets)
  let global ← (CredentialFile.loadGlobal tree order.home order.globalFile).mapError
    Failure.readingGlobalFile
  let harvest ← Harvest.ofSecrets secrets
  (Merge.merge harvest.configs global order.image order.mirrors).mapError Failure.breakdown

/-- Writes the file that an order asks for. -/
def create (order : Order) : Tree → Except Failure Path × Tree := fun tree =>
  match content order tree with
  | .error failure => (.error failure, tree)
  | .ok file =>
    write order.dir order.namespaceName order.image (.value (.object file)) tree

/-- The journal of merging what was harvested and of writing the result. -/
def mergeJournal (order : Order) (tree : Tree) (harvest : Harvest) (global : CredentialFile) :
    List Entry :=
  (if harvest.skipped.isEmpty then [] else
    [.info ("Skipped " ++ Text.ofNat harvest.skipped.length ++ " secret(s) or entries")]) ++
  (if Merge.canCopy global then
    Merge.journal harvest.configs order.image order.mirrors else []) ++
  (match Merge.merge harvest.configs global order.image order.mirrors, (create order tree).1 with
    | .ok file, .ok p =>
      [.info ("Wrote auth file to " ++ p.toText ++ " with " ++
        Text.ofNat (CredentialFile.entries file).length ++ " entries")]
    | _, _ => [])

def journal (order : Order) (tree : Tree) : List Entry :=
  match order.secrets, CredentialFile.loadGlobal tree order.home order.globalFile with
  | some secrets, .ok global =>
    if order.namespaceName.isEmpty then []
    else
      let missing : Bool :=
        match CredentialFile.pathOf order.home order.globalFile with
        | .ok p => ((CredentialFile.load? tree p).toOption.getD none).isNone
        | .error _ => false
      (if missing then
        [.info ("Global auth file " ++ order.globalFile ++
          " does not exist, using empty config")] else []) ++
      Harvest.journal secrets ++
      (match Harvest.ofSecrets secrets with
        | .ok harvest => mergeJournal order tree harvest global
        | .error _ => [])
  | _, _ => []

/-- Writes the file that an order asks for. The entries are noted even if that fails. -/
def creating (order : Order) : Work Path := fun desk =>
  let entries := journal order desk.tree
  match create order desk.tree with
  | (.ok p, tree) => (.ok p, (Desk.replaced p { desk with tree }).note entries)
  | (.error failure, tree) => (.error failure, Desk.note entries { desk with tree })

end PullAuth.AuthFile
