import PullAuth.Address
import PullAuth.Secret.Harvest

/-!
The credentials of secrets laid over a global credential file. A registry name loses its scheme,
and the entry applies if one of the mirrors starts with the name or else the image does. An
entry that applies replaces the global one of the same name as a whole; a later entry for a name
replaces an earlier one. Everything else in the global file is kept.
-/
namespace PullAuth.Merge

/-- A registry name without its scheme: `http://` and then `https://` in front are removed once
each. -/
def normalized (registry : Text) : Text :=
  Text.dropStarts ["http://", "https://"] registry

def appliesToMirror (name : Text) (mirrors : List Text) : Bool :=
  mirrors.any (Text.startsWith · name)

def appliesToImage (name image : Text) : Bool := Text.startsWith image name

def applies (image : Text) (mirrors : List Text) (name : Text) : Bool :=
  appliesToMirror name mirrors || appliesToImage name image

/-- The entries of all secrets in order, under normalized names. -/
def pairs (configs : List Config) : List (Text × Credential) :=
  configs.flatMap fun config => config.auths.map fun (registry, entry) =>
    (normalized registry, entry)

/-- The entries that apply; of several for one name the last counts, in the first one's place. -/
def qualifying (configs : List Config) (image : Text) (mirrors : List Text) : Keyed Credential :=
  Keyed.ofPairs ((pairs configs).filter fun pair => applies image mirrors pair.1)

/-- The entry of the journal about a registry of a secret. -/
def pairJournal (image : Text) (mirrors : List Text) (source : Option Text) (name : Text) :
    Entry :=
  if appliesToMirror name mirrors then
    .info ("Using mirror auth for registry " ++ name.quoted ++ " from " ++
      Text.quotedOption source)
  else if appliesToImage name image then
    .info ("Using auth for registry " ++ name.quoted ++ " matching image " ++ image.quoted)
  else
    .debug ("Registry " ++ name.quoted ++ " from " ++ Text.quotedOption source ++
      " does not apply")

def journal (configs : List Config) (image : Text) (mirrors : List Text) : List Entry :=
  (configs.flatMap fun config => config.auths.map fun (registry, _) =>
    pairJournal image mirrors config.source (normalized registry)) ++
  (if (qualifying configs image mirrors).isEmpty then
    [.info "No docker auth found for any available secret"] else [])

/-- Whether the text holds a percent sign with two hexadecimal digits after it. -/
def hasEscape : Text → Bool
  | [] => false
  | c :: t =>
    (c = '%' && (match t with
      | a :: b :: _ => a.hexValue?.isSome && b.hexValue?.isSome
      | _ => false)) || hasEscape t

/-- Whether a name changes when it is read as part of an address: tabs and line ends vanish and
escapes are resolved. -/
def changesInAddress (name : Text) : Bool :=
  name.any Address.isPassedOver || hasEscape name

/-- What keeps an entry from being replaced under a name, if anything does. -/
def nameBreakdown? (name : Text) : Option Breakdown :=
  if name.isEmpty then some .emptyRegistryName
  else if changesInAddress name then some .registryNameChanged
  else none

/-- The written entries under their names. -/
def writtenEntries (auths : Keyed Credential) : Except Breakdown (Keyed Json) :=
  auths.mapM fun (name, credential) =>
    match credential.written? with
    | some entry => .ok (name, entry)
    | none => .error .unencodable

/-- The global file with the written entries in place of its own. -/
def overlay (file : CredentialFile) (written : Keyed Json) : CredentialFile :=
  let file := CredentialFile.withEntries file
  Keyed.put CredentialFile.entriesKey
    (.object (Keyed.putAll (CredentialFile.entries file) written)) file

/-- What keeps entries from being laid over a file, if anything does: its own are no object, or a
name stands in the way. -/
def overlayBreakdown? (file : CredentialFile) (written : Keyed Json) : Option Breakdown :=
  if CredentialFile.hasEntriesObject file then
    written.findSome? fun (name, _) => nameBreakdown? name
  else some .entriesNotObject

/-- The most levels of a file that is copied: every level takes as much room as two take in
reading. -/
def copyLimit : Nat := Json.levelLimit / 2

/-- Whether a file can be copied. -/
def canCopy (file : CredentialFile) : Bool := (Json.object file).levels ≤ copyLimit

/-- A copy of the global file with the entries that apply laid over it. -/
def merge (configs : List Config) (global : CredentialFile) (image : Text)
    (mirrors : List Text) : Except Breakdown CredentialFile := do
  if !canCopy global then throw .tooDeep
  let written ← writtenEntries (qualifying configs image mirrors)
  match overlayBreakdown? global written with
  | some cause => .error cause
  | none => .ok (overlay global written)

end PullAuth.Merge
