import PullAuth.Settings

/-!
The parameters of the command line: their options, the variables of the environment that stand in
for options that are not given, and the sorts of their values.
-/
namespace PullAuth.CommandLine

/-- A parameter of the command line. -/
inductive Parameter where
  | setting (s : Setting)
  /-- The least level of the entries in the journal. -/
  | logLevel
  /-- The file of the journal. -/
  | logFile
  /-- Whether to describe the release. -/
  | version
  /-- Whether to describe the release as a document. -/
  | versionDocument
  /-- Whether to describe the options. -/
  | help
  deriving DecidableEq

/-- What the values of a parameter are. -/
inductive ValueSort where
  | flag
  | level
  /-- A number that is at least one. -/
  | count
  /-- A path that may lead to a file but not to a directory. -/
  | file
  /-- A path that may lead to a directory but not to a file. -/
  | directory
  deriving DecidableEq

namespace Parameter

/-- The name of a parameter, which its variable in the environment bears too. -/
def name : Parameter → Text
  | setting s => s.parameter
  | logLevel => "log_level"
  | logFile => "log_file"
  | version => "show_version"
  | versionDocument => "show_version_json"
  | help => "_click_default_help"

def option : Parameter → Text
  | setting .registriesFile => "--registries-conf"
  | setting .registriesDir => "--registries-conf-dir"
  | setting .authDir => "--auth-dir"
  | setting .globalFile => "--global-auth-file"
  | setting .serverDir => "--apiserver-env-dir"
  | setting .timeout => "--timeout"
  | logLevel => "--log-level"
  | logFile => "--log-file"
  | version => "--version"
  | versionDocument => "--version-json"
  | help => "--help"

def sort : Parameter → ValueSort
  | setting .registriesFile => .file
  | setting .registriesDir => .directory
  | setting .authDir => .directory
  | setting .globalFile => .file
  | setting .serverDir => .directory
  | setting .timeout => .count
  | logLevel => .level
  | logFile => .file
  | version => .flag
  | versionDocument => .flag
  | help => .flag

def takesValue (p : Parameter) : Bool := p.sort ≠ .flag

/-- Every parameter, in the order in which parameters without an option are looked at. -/
def all : List Parameter :=
  [help, versionDocument, version, setting .timeout, setting .serverDir, setting .globalFile,
    setting .authDir, setting .registriesDir, setting .registriesFile, logFile, logLevel]

def ofOption? (option : Text) : Option Parameter := all.find? fun p => p.option = option

/-- What the names of the variables in the environment begin with. -/
def variableStart : Text := "CRIO_CREDENTIAL_PROVIDER_"

def capital (c : CodePoint) : CodePoint :=
  if h : 0x61 ≤ c.toNat ∧ c.toNat ≤ 0x7A then ⟨c.toNat - 0x20, by omega⟩ else c

def environmentVariable (p : Parameter) : Text := variableStart ++ p.name.map capital

/-- The value of a parameter that nothing gives, if it has one. -/
def standard? : Parameter → Option Json
  | setting s => some s.standard
  | logLevel => some (.string Level.info.name)
  | logFile => none
  | version => some (.bool false)
  | versionDocument => some (.bool false)
  | help => some (.bool false)

end Parameter

end PullAuth.CommandLine
