import Provision.Json.Tree
import Provision.Plan.Basic

/-!
# Plans as JSON

Every directive is an object that tells its kind, and after that its fields. What is not set is
left out or null, as its field says.
-/

namespace Provision

/-- A text, or null. -/
def Json.ofText? (text : Option String) : Json :=
  (text.map .text).getD .null

/-- A port, or null. -/
def Json.ofPort? (port : Option UInt16) : Json :=
  (port.map fun n => .int n.toNat).getD .null

/-- A member that is left out when it is not set. -/
def Json.member? (name : String) (text : Option String) : List (String × Json) :=
  match text with
  | some text => [(name, .text text)]
  | none => []

/-- Options as a JSON object. -/
def Options.toJson (options : Options) : Except Json.KeyFault Json :=
  Json.ofValue (.table (options.map fun (name, value) => (.text name, value)))

def ScriptSource.toJson : ScriptSource → Json
  | .path file => .object [("path", .text file)]
  | .inline body => .object [("inline", .text body)]

namespace Directive

/-- The name of a directive's kind. -/
def kind : Directive → String
  | .ssh _ => "ssh"
  | .machine _ => "machine"
  | .provider _ => "provider"
  | .network _ => "network"
  | .forwardedPort _ => "forwarded_port"
  | .shell _ => "shell"
  | .file _ => "file"
  | .syncedFolder _ => "synced_folder"
  | .bindFolder _ => "bind_folder"

/-- The members of a directive's object after its kind. -/
def members : Directive → Except Json.KeyFault (List (String × Json))
  | .ssh session =>
    return [("shell", .text session.shell), ("forward_agent", .bool session.forwardAgent)]
  | .machine m =>
    return [("name", .text m.name), ("box", .text m.box), ("version", .text m.version)]
  | .provider tuning =>
    return [("provider", .text tuning.provider), ("name", .text tuning.name),
      ("customizations", .list (tuning.customizations.map fun (flag, value) =>
        .list [.text flag, .text value])),
      ("gui", .bool tuning.gui)]
  | .network n =>
    return Json.member? "type" n.kind ++ Json.member? "ip" n.ip ++ Json.member? "bridge" n.bridge
  | .forwardedPort port =>
    return [("guest", .ofPort? port.guest), ("host", .ofPort? port.host),
      ("protocol", .text port.protocol), ("auto_correct", .bool port.autoCorrect)]
  | .shell sh =>
    return Json.member? "name" sh.name ++ [("source", sh.source.toJson)] ++
      (if sh.args.isEmpty then [] else [("args", .list (sh.args.map .text))]) ++
      [("privileged", .bool sh.privileged)]
  | .file upload =>
    return [("source", .text upload.source), ("destination", .text upload.destination)]
  | .syncedFolder folder => do
    let options ← folder.options.toJson
    return [("map", .text folder.map), ("to", .text folder.guestPath), ("type", .ofText? folder.kind),
      ("options", options)]
  | .bindFolder folder =>
    return [("source", .text folder.source), ("target", .text folder.target)]

/-- A directive as a JSON object. -/
def toJson (directive : Directive) : Except Json.KeyFault Json :=
  return .object (("kind", .text directive.kind) :: (← directive.members))

end Directive

/-- A plan as a JSON object. -/
def Plan.toJson (plan : Plan) : Except Json.KeyFault Json :=
  return .object [
    ("context", .object [("default_provider", .text plan.defaultProvider)]),
    ("directives", .list (← plan.directives.mapM Directive.toJson))]

end Provision
