import Provision.Error
import Provision.Json.Tree
import Provision.Settings.Schema
import Provision.Yaml.NodeText

/-!
# Writing settings

Settings are written as YAML or as a JSON tree, field by field in the order of the schema; what is
not set is left out, and where they were read from is never written.
-/

namespace Provision.Settings

/-- The YAML document of settings. -/
def toYaml (s : Settings) : Except Error String :=
  (Yaml.textOfValue (schema.toValue s)).mapError .invalidYaml

/-- The JSON tree of settings. -/
def toJson (s : Settings) : Except Json.KeyFault Json :=
  Json.ofValue (schema.toValue s)

end Provision.Settings
