import PullAuth.Cluster
import PullAuth.Json.Basic

/-!
Settings. They come from layers of parameters, one inside another: the innermost layer in which a
parameter says anything gives its value, and the standard value serves where none does.
-/
namespace PullAuth

/-- The values of parameters under their names. -/
abbrev Parameters := Keyed Json

namespace Parameters

/-- The value of a parameter in the layers, the innermost of which comes first. -/
def find? (name : Text) (layers : List Parameters) : Option Json :=
  layers.findSome? fun layer => (Keyed.get? name layer).filter Json.isPresent

end Parameters

/-- A setting. -/
inductive Setting where
  | registriesFile
  | registriesDir
  | authDir
  | globalFile
  /-- The directory of the file with the address of the server. -/
  | serverDir
  | timeout
  deriving DecidableEq

namespace Setting

def parameter : Setting → Text
  | registriesFile => "registries_conf"
  | registriesDir => "registries_conf_dir"
  | authDir => "auth_dir"
  | globalFile => "global_auth_file"
  | serverDir => "apiserver_env_dir"
  | timeout => "timeout"

def standard : Setting → Json
  | registriesFile => .string "/etc/containers/registries.conf"
  | registriesDir => .string "/etc/containers/registries.conf.d"
  | authDir => .string "/etc/crio/auth"
  | globalFile => .string "/var/lib/kubelet/config.json"
  | serverDir => .string "/etc/kubernetes"
  | timeout => Cluster.defaultTimeout

/-- The value of a setting in the layers. -/
def value (layers : List Parameters) (s : Setting) : Json :=
  (Parameters.find? s.parameter layers).getD s.standard

/-- The text of a setting; a value that is none counts as empty. -/
def textValue (layers : List Parameters) (s : Setting) : Text := (s.value layers).text?.getD []

end Setting

/-- The settings of an invocation. -/
structure Settings where
  registriesFile : Text
  registriesDir : Text
  authDir : Text
  globalFile : Text
  serverDir : Text
  /-- The seconds to wait for the listing of secrets, as they were given. -/
  timeout : Json

namespace Settings

/-- The settings that the layers give. -/
def ofLayers (layers : List Parameters) : Settings where
  registriesFile := Setting.registriesFile.textValue layers
  registriesDir := Setting.registriesDir.textValue layers
  authDir := Setting.authDir.textValue layers
  globalFile := Setting.globalFile.textValue layers
  serverDir := Setting.serverDir.textValue layers
  timeout := Setting.timeout.value layers

def journal (s : Settings) : List Entry :=
  [.debug ("Using registries conf " ++ s.registriesFile ++ ", auth dir " ++ s.authDir ++
    ", global auth file " ++ s.globalFile)]

end Settings

end PullAuth
