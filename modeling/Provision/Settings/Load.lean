import Provision.Error
import Provision.Host.Basic
import Provision.Settings.Schema

/-!
# Reading settings

Settings come from the text of a YAML or a JSON document, or from a file whose name tells the
format.
-/

namespace Provision

/-- What a reading makes of the only document of a stream. Faults behind the document are found
after those within it. -/
def Yaml.Document.run {α : Type} (document : Yaml.Document) (blank : α)
    (reading : Yaml.Place → Yaml.Node → Yaml.Reading α) : Except Yaml.Fault α :=
  match document.root with
  | none => .ok blank
  | some root =>
    match reading .root root document 0 with
    | .error fault => .error fault
    | .ok (a, _) =>
      match document.brokenBy with
      | some (.malformed cause) => .error (.malformed cause)
      | some .unknownAnchor => .error .unknownAnchor
      | none => if document.hasMore then .error .severalDocuments else .ok a

/-- What a reading makes of a document. -/
def Json.Document.run {α : Type} (document : Json.Document)
    (reading : (depth : Nat) → Json.Source → Json.Reading α) : Except Json.Fault α :=
  match reading Json.depthLimit document.root with
  | .error fault => .error fault
  | .ok a => if document.hasMore then .error (.broken .malformed) else .ok a

namespace Settings

/-- The settings a YAML document holds. -/
def ofYaml (text : String) : Except Error Settings :=
  ((Yaml.Document.ofText text).run .blank schema.ofNode).mapError .invalidYaml

/-- The settings a JSON document holds. -/
def ofJson (text : String) : Except Error Settings :=
  ((Json.Document.ofText text).run schema.ofSource).mapError .invalidJson

/-- The settings a document holds. -/
def ofText (format : DocumentFormat) (text : String) : Except Error Settings :=
  match format with
  | .yaml => ofYaml text
  | .json => ofJson text

/-- The settings in a file. -/
def load (host : Host) (path : HostPath) : Except Error Settings := do
  let text ← (host.readText path).mapError (.readFailed path)
  let settings ← ofText (if HostPath.isJson path then .json else .yaml) text
  return { settings with sourcePath := some path }

end Settings

end Provision
