import PullAuth.Credential
import PullAuth.CredentialFile
import PullAuth.Secret.Record

/-!
The credentials that secrets carry. A secret of the right type whose value is a credential file
yields an entry for every registry in it, any other is skipped as a whole, and an entry whose `auth`
cannot be decoded is skipped by itself. Every secret is treated on its own, but one whose file is
nested too deep ends the harvest.
-/
namespace PullAuth

/-- The credentials of a secret under the names of their registries. -/
structure Config where
  /-- The name of the secret, unless it has none. -/
  source : Option Text
  auths : Keyed Credential
  deriving DecidableEq

namespace Harvest

/-- The type of the secrets that carry credentials. -/
def secretType : Text := "kubernetes.io/dockerconfigjson"

/-- The key of the value that is a credential file. -/
def dataKey : Text := ".dockerconfigjson"

/-- Why a secret or an entry is skipped. -/
inductive Reason where
  /-- The secret is of another type. -/
  | otherType (type : Text)
  | missingKey
  | refused (fault : ValidationFault)
  /-- The `auth` of the entry cannot be decoded. -/
  | entry (fault : Credential.EntryFault)

def Reason.message (tell : Detail → Text) : Reason → Text
  | otherType type => "secret is not a docker config JSON secret (type " ++ type.quoted ++ ")"
  | missingKey => "secret does not contain data key " ++ dataKey.quoted
  | refused fault => fault.message tell
  | entry fault => fault.message

/-- A secret, or the entry for a registry in it, that is skipped. -/
structure Skipped where
  secret : Option Text
  registry : Option Text
  reason : Reason

/-- The words for a secret. -/
def secretWords (name : Option Text) : Text := "secret " ++ Text.quotedOption name

def Skipped.source (s : Skipped) : Text :=
  secretWords s.secret ++
    match s.registry with
    | some registry => " registry " ++ registry.quoted
    | none => []

def Skipped.warning (s : Skipped) : Entry :=
  .warning ("Skipping " ++ s.source ++ ": " ++ s.reason.message Detail.text)

/-- The credential of an entry, if it can be decoded. -/
abbrev Found := Except Credential.EntryFault Credential

/-- The credential file that a secret carries, or why the secret is skipped. A failure that is more
than a refusal of the file ends the harvest. -/
def fileOf (s : Secret) : Except Failure (Except Reason CredentialFile) :=
  if s.type ≠ secretType then .ok (.error (.otherType s.type))
  else match Keyed.get? dataKey s.data with
    | none => .ok (.error .missingKey)
    | some bs =>
      match CredentialFile.ofBytes (secretWords s.name) bs with
      | .ok file => .ok (.ok file)
      | .error (.validation fault) => .ok (.error (.refused fault))
      | .error failure => .error failure

/-- What is found in a secret: something for every registry of its file. -/
def found (s : Secret) : Except Failure (Except Reason (Keyed Found)) :=
  (fileOf s).map fun carried => carried.map fun file =>
    file.entries.map fun (registry, value) => (registry, Credential.ofEntry value.members)

/-- The entries that can be decoded. -/
def decoded (entries : Keyed Found) : Keyed Credential :=
  entries.filterMap fun (registry, entry) =>
    match entry with
    | .ok credential => some (registry, credential)
    | .error _ => none

/-- The entries that cannot be decoded. -/
def undecoded (name : Option Text) (entries : Keyed Found) : List Skipped :=
  entries.filterMap fun (registry, entry) =>
    match entry with
    | .ok _ => none
    | .error fault => some ⟨name, some registry, .entry fault⟩

end Harvest

/-- What secrets yield: the credentials, and what was skipped. -/
structure Harvest where
  configs : List Config
  skipped : List Harvest.Skipped

namespace Harvest

/-- What one secret yields: its credentials, or that it is skipped. -/
def ofFound (name : Option Text) : Except Reason (Keyed Found) → Harvest
  | .ok entries => ⟨[⟨name, decoded entries⟩], undecoded name entries⟩
  | .error reason => ⟨[], [⟨name, none, reason⟩]⟩

def ofSecret (s : Secret) : Except Failure Harvest := (found s).map (ofFound s.name)

/-- What was yielded one after another. -/
def join (yields : List Harvest) : Harvest :=
  ⟨yields.flatMap Harvest.configs, yields.flatMap Harvest.skipped⟩

/-- What secrets yield, in their order. -/
def ofSecrets (secrets : List Secret) : Except Failure Harvest :=
  (secrets.mapM ofSecret).map join

/-- The name of a secret in the journal. -/
def plainName (name : Option Text) : Text := name.getD "None"

def entryJournal (s : Secret) (entry : Text × Found) : List Entry :=
  .info ("Found docker config JSON auth in " ++ secretWords s.name ++ " for " ++
    entry.1.quoted) :: (undecoded s.name [entry]).map Skipped.warning

def secretJournal (s : Secret) : List Entry :=
  .info ("Parsing secret: " ++ plainName s.name) ::
    match found s with
    | .ok (.ok entries) => entries.flatMap (entryJournal s)
    | .ok (.error reason) => [Skipped.warning ⟨s.name, none, reason⟩]
    | .error _ => []

/-- The journal of a harvest, up to the secret that ends it if there is one. -/
def journal : List Secret → List Entry
  | [] => []
  | s :: rest => secretJournal s ++ if (found s).isOk then journal rest else []

end Harvest

end PullAuth
