import Provision.Host.Disk
import Provision.Host.Path
import Provision.Json.Reading
import Provision.Yaml.Reading

/-!
# Errors

Everything that can keep settings from being found, read or turned into a plan. An error is its
cause; its wording, its code and its advice are functions of it.
-/

namespace Provision

/-- Why there are no settings or no plan. -/
inductive Error
  /-- No settings file in a directory or above it. -/
  | notFoundInTree (start : HostPath)
  /-- No settings file at a path. -/
  | notFoundAtPath (path : HostPath)
  | invalidYaml (fault : Yaml.Fault)
  | invalidJson (fault : Json.Fault)
  | readFailed (path : HostPath) (fault : ReadFault)
  /-- Settings that ask for private keys and name none. -/
  | noPrivateKeys
  | privateKeyNotFound (path : HostPath)
  | scriptsRootNotFound (path : HostPath)

/-- The text of a fault in a YAML document; none where the grammar is broken. -/
def Yaml.Fault.message? : Yaml.Fault → Option String
  | .malformed _ | .unwritable => none
  | .unknownAnchor => some "unknown anchor"
  | .tooDeep => some "recursion limit exceeded"
  | .tooOften => some "repetition limit exceeded"
  | .severalDocuments =>
    some "deserializing from YAML containing more than one document is not supported"
  | .complaint fault path =>
    let place := match path with
      | none => ""
      | some path => if path.text = "." then "" else path.text ++ ": "
    some (place ++ fault.words .yaml)

/-- The text of a fault in a JSON document; none where the grammar is broken. -/
def Json.Fault.message? : Json.Fault → Option String
  | .broken _ => none
  | .complaint fault => some (fault.words .json)

namespace Error

/-- The text of an error; none where a document breaks the grammar of its format. -/
def message? : Error → Option String
  | .notFoundInTree start =>
    some s!"No Homestead.yaml or Homestead.json found in {Text.quoted start} or any parent directory"
  | .notFoundAtPath path => some s!"Settings file not found at {Text.quoted path}"
  | .invalidYaml fault => fault.message?.map ("Invalid Homestead.yaml file: " ++ ·)
  | .invalidJson fault => fault.message?.map ("Invalid Homestead.json file: " ++ ·)
  | .readFailed path _ => some s!"Failed to read file: {Text.quoted path}"
  | .noPrivateKeys =>
    some "Check your Homestead.yaml file, you have no private key(s) specified."
  | .privateKeyNotFound path =>
    some ("Check your Homestead.yaml file, the path to your private key does not exist: " ++
      Text.quoted path)
  | .scriptsRootNotFound path => some s!"Provisioning scripts directory not found: {Text.quoted path}"

/-- The diagnostic code of an error. -/
def code : Error → String
  | .notFoundInTree _ => "homestead::not_found_in_tree"
  | .notFoundAtPath _ => "homestead::not_found_at_path"
  | .invalidYaml _ => "homestead::invalid_yaml"
  | .invalidJson _ => "homestead::invalid_json"
  | .readFailed _ _ => "homestead::read_failed"
  | .noPrivateKeys => "homestead::no_private_keys"
  | .privateKeyNotFound _ => "homestead::private_key_not_found"
  | .scriptsRootNotFound _ => "homestead::scripts_root_not_found"

/-- What to do about an error. -/
def help? : Error → Option String
  | .notFoundInTree _ =>
    some "Create a Homestead.yaml file with 'homestead init' or specify a path with -f"
  | .invalidYaml _ => some "Check YAML syntax and the types of the values in your settings"
  | .noPrivateKeys =>
    some "List at least one private key path under 'keys', or remove the 'keys' entry"
  | .scriptsRootNotFound _ =>
    some "Point --scripts-dir (or HOMESTEAD_SCRIPTS_DIR) at the directory holding serve-*.sh"
  | .notFoundAtPath _ | .invalidJson _ | .readFailed _ _ | .privateKeyNotFound _ => none

end Error

end Provision
