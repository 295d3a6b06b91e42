import PullAuth.Failure

/-!
Credential files: objects whose `auths` hold an entry for every registry. Other members are kept as
they are. A file without `auths`, or with null in their place, has no entries.
-/
namespace PullAuth

/-- The members of a credential file. -/
abbrev CredentialFile := Keyed Json

namespace CredentialFile

def entriesKey : Text := "auths"

def empty : CredentialFile := [(entriesKey, .object [])]

/-- The entries of a file under the names of their registries. -/
def entries (file : CredentialFile) : Keyed Json :=
  ((Keyed.get? entriesKey file).map Json.members).getD []

/-- The members with an object for the entries, if there were none. -/
def withEntries (members : Keyed Json) : CredentialFile :=
  match Keyed.get? entriesKey members with
  | none => Keyed.put entriesKey (.object []) members
  | some .null => Keyed.put entriesKey (.object []) members
  | some _ => members

/-- Whether the entries of a file are an object, once there are any. -/
def hasEntriesObject (file : CredentialFile) : Bool :=
  ((Keyed.get? entriesKey (withEntries file)).map Json.isObject).getD false

/-- The members of a document that was not checked; one that says nothing has none. -/
def ofDocument (value : Json) : Except Breakdown CredentialFile :=
  if value.isObject || !value.isPresent then .ok value.members else .error .unusable

def ofJson (source : Text) (value : Json) : Except ValidationFault CredentialFile :=
  match Schema.credentialFile.misfit? Kinds.credentialFile source value with
  | some misfit => .error (.misfit misfit)
  | none => .ok (withEntries value.members)

def ofText (source : Text) (t : Text) : Except Failure CredentialFile :=
  readDocument (.notJson source) (ofJson source) t

/-- The file in bytes, which are UTF-8. -/
def ofBytes (source : Text) (bs : Bytes) : Except Failure CredentialFile :=
  match Utf8.decode .strict bs with
  | some t => ofText source t
  | none => .error (.validation (.notJson source))

def load? (tree : Tree) (path : Path) : Except Failure (Option CredentialFile) :=
  match tree.read path.toText with
  | .error (.system .notFound) => .ok none
  | .error fault => .error (.ofPath (fun e => .configuration (.unreadable path e)) fault)
  | .ok bs => ((ofBytes path.toText bs).map some).mapError .inConfiguration

/-- The home directory that a variable names, or that of the superuser. -/
def homeDirectory (home : Option Text) : Text :=
  match home with
  | none => "/root"
  | some h =>
    let kept := Text.trimEnd (· = '/') h
    if kept.isEmpty then "/" else kept

def userPath (home : Option Text) : Except Failure Path :=
  let h := homeDirectory home
  if Text.startsWith h "~" then .error (.breakdown .homeUnknown)
  else .ok ((Path.ofText h).join (Path.ofText ".docker/config.json"))

/-- The path that a text spells; an empty text stands for the file of the user. -/
def pathOf (home : Option Text) (path : Text) : Except Failure Path :=
  if path.isEmpty then userPath home else .ok (Path.ofText path)

/-- The global file: the one at a path, or one without entries if there is none. -/
def loadGlobal (tree : Tree) (home : Option Text) (path : Text) :
    Except Failure CredentialFile := do
  let file ← load? tree (← pathOf home path)
  return file.getD empty

end CredentialFile

end PullAuth
