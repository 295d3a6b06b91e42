import PullAuth.File.Tree
import PullAuth.Registry.Table
import PullAuth.Schema.Kinds
import PullAuth.Token.Claims

/-!
The failures of the provider by their causes, and their wording. A failure is either one that the
provider reports or a breakdown, which it does not expect. Where a wording ends with what a reader
or the system has to say, that part is a detail, and the wording is a function of how details are
told.
-/
namespace PullAuth

/-- What a reader or the system has to say. -/
inductive Detail where
  | notJson
  | notToml
  | notToken
  | unknownExtension (name : Text)
  | listingFailed
  | system (error : SystemError)

def Detail.text : Detail → Text
  | notJson => "the text is no JSON document"
  | notToml => "the text is no TOML document"
  | notToken => "the text is no token"
  | unknownExtension name => "unknown critical extension: " ++ name
  | listingFailed => "the listing failed"
  | system .notFound => "no such file or directory"
  | system .notDirectory => "not a directory"
  | system .isDirectory => "is a directory"
  | system .alreadyThere => "the file exists"
  | system .nameTooLong => "the name is too long"
  | system .noRoom => "no space left"
  | system .notPermitted => "the operation is not permitted"

/-- Why an input is refused. -/
inductive ValidationFault where
  | requestNotJson
  /-- A credential file is no JSON text. -/
  | notJson (source : Text)
  /-- A document does not fit its schema. -/
  | misfit (misfit : Misfit)
  | emptyImage
  | emptyNamespace
  | emptyNamespaceClaim
  | noSecrets
  | relativeDirectory (path : Path)

def ValidationFault.message (tell : Detail → Text) : ValidationFault → Text
  | requestNotJson => "unable to parse credential provider request: " ++ tell .notJson
  | notJson source => "unmarshaling JSON at " ++ source ++ ": " ++ tell .notJson
  | misfit m => m.message
  | emptyImage => "image is empty"
  | emptyNamespace => "namespace is empty"
  | emptyNamespaceClaim => "unable to extract namespace: namespace is empty"
  | noSecrets => "secrets is None"
  | relativeDirectory path => "auth dir " ++ path.toText ++ " is not an absolute path"

def Token.Fault.message (tell : Detail → Text) : Token.Fault → Text
  | emptyToken => "request service account token is empty"
  | unencodable => "unable to parse JWT token: " ++ tell .notToken
  | unparsable => "unable to parse JWT token: " ++ tell .notToken
  | tooDeep => "unable to parse JWT token: " ++ tell .notToken
  | unknownExtension name => "unable to parse JWT token: " ++ tell (.unknownExtension name)
  | missingClaim => "no " ++ Token.claimKey ++ " claim name in JWT claims found"
  | claimNotMapping => Token.claimKey ++ " claim does not contain a map"
  | missingNamespace => "no namespace found in kubernetes claim"
  | namespaceNotString => "namespace is not a string object"

def Token.Fault.reason : Token.Fault → Text
  | emptyToken => "empty-token"
  | unencodable => "unparseable"
  | unparsable => "unparseable"
  | tooDeep => "unparseable"
  | unknownExtension _ => "unparseable"
  | missingClaim => "missing-claim"
  | claimNotMapping => "claim-not-mapping"
  | missingNamespace => "missing-namespace"
  | namespaceNotString => "namespace-not-string"

/-- Why a configuration cannot be used. -/
inductive ConfigurationFault where
  | unreadable (path : Path) (error : SystemError)
  /-- The file of registries cannot be looked at. -/
  | inaccessible (path : Path) (error : SystemError)
  /-- A file of registries is no TOML document. -/
  | notToml (path : Path)
  | registriesNotArray (path : Path)
  /-- A table of a file describes no registry. -/
  | registry (path : Text) (fault : Registry.Fault)
  /-- A credential file is refused. -/
  | credentialFile (fault : ValidationFault)
  /-- The registries cannot be loaded. -/
  | loadingRegistries (fault : ConfigurationFault)
  /-- The global credential file cannot be loaded. -/
  | readingGlobalFile (fault : ConfigurationFault)

def ConfigurationFault.message (tell : Detail → Text) : ConfigurationFault → Text
  | unreadable path error => "unable to read " ++ path.toText ++ ": " ++ tell (.system error)
  | inaccessible path error =>
    "unable to access registries conf path " ++ path.toText ++ ": " ++ tell (.system error)
  | notToml path => "unable to parse " ++ path.toText ++ ": " ++ tell .notToml
  | registriesNotArray path => path.toText ++ ": registry must be an array"
  | registry path fault => path ++ ": " ++ fault.message
  | credentialFile fault => fault.message tell
  | loadingRegistries fault => "loading registries configuration: " ++ fault.message tell
  | readingGlobalFile fault => "unable to read global auth file: " ++ fault.message tell

/-- Why the secrets could not be had. -/
inductive RetrievalFault where
  /-- There is no connection to the cluster. -/
  | connection (reason : Text)
  | listing

def RetrievalFault.message (tell : Detail → Text) : RetrievalFault → Text
  | connection reason => "unable to connect to Kubernetes API: " ++ reason
  | listing => "unable to retrieve secrets: " ++ tell .listingFailed

/-- What the provider does not expect. -/
inductive Breakdown where
  | unencodable
  | undecodable
  | nullCharacter
  /-- A number in a file of registries has too many digits. -/
  | integerTooLong
  /-- A document is nested too deep to be read or to be copied. -/
  | tooDeep
  /-- The data of a secret holds a character outside ASCII. -/
  | dataNotAscii
  /-- A registry name is empty where an entry is to be replaced. -/
  | emptyRegistryName
  /-- A registry name changes when it is read as an address. -/
  | registryNameChanged
  /-- The home directory cannot be told. -/
  | homeUnknown
  /-- The client of the cluster breaks down. -/
  | client
  /-- A part of a document has no written form. -/
  | formless
  /-- A document or the `auth` of an entry is of a kind that cannot serve as one. -/
  | unusable
  /-- The entries of a global credential file are no object. -/
  | entriesNotObject
  /-- The address of a server cannot be read. -/
  | malformedAddress
  /-- The system refuses an operation that is expected to succeed. -/
  | system (error : SystemError)
  deriving DecidableEq

/-- A failure of the provider. -/
inductive Failure where
  | validation (fault : ValidationFault)
  | claim (fault : Token.Fault)
  | configuration (fault : ConfigurationFault)
  | retrieval (fault : RetrievalFault)
  | noCredentials
  | persistence (path : Path) (error : SystemError)
  | breakdown (cause : Breakdown)

namespace Failure

/-- The wording of a failure that the provider reports; a breakdown has none. -/
def messageWith (tell : Detail → Text) : Failure → Option Text
  | validation fault => some (fault.message tell)
  | claim fault => some ("unable to extract namespace: " ++ fault.message tell)
  | configuration fault => some (fault.message tell)
  | retrieval fault => some (fault.message tell)
  | noCredentials => some "no auths found in file contents"
  | persistence path error =>
    some ("write auth file " ++ path.toText ++ ": " ++ tell (.system error))
  | breakdown _ => none

/-- The wording of a failure that the provider reports, with its details. -/
def message? (failure : Failure) : Option Text := failure.messageWith Detail.text

/-- The failure of a path: what the system refuses is reported, a path that cannot be spelled is a
breakdown. -/
def ofPath (report : SystemError → Failure) : PathFault → Failure
  | .system error => report error
  | .unencodable => breakdown .unencodable
  | .nullCharacter => breakdown .nullCharacter

def unexpected (fault : PathFault) : Failure := ofPath (fun e => breakdown (.system e)) fault

/-- The failure of a token; one that cannot be encoded or is nested too deep is a breakdown. -/
def ofToken : Token.Fault → Failure
  | .unencodable => breakdown .unencodable
  | .tooDeep => breakdown .tooDeep
  | fault => claim fault

/-- The failure where a credential file is refused, told as one of the configuration. -/
def inConfiguration : Failure → Failure
  | validation fault => configuration (.credentialFile fault)
  | failure => failure

def loadingRegistries : Failure → Failure
  | configuration fault => configuration (.loadingRegistries fault)
  | failure => failure

def readingGlobalFile : Failure → Failure
  | configuration fault => configuration (.readingGlobalFile fault)
  | failure => failure

end Failure

/-- What is made of the document in a text. A text without one is refused with a fault, and one that
is nested too deep is a breakdown. -/
def readDocument {α : Type} (notJson : ValidationFault) (make : Json → Except ValidationFault α)
    (t : Text) : Except Failure α :=
  match Json.read t with
  | .ok document => (make document).mapError .validation
  | .error .malformed => .error (.validation notJson)
  | .error .tooDeep => .error (.breakdown .tooDeep)

end PullAuth
