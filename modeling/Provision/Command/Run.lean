import Provision.Command.Arguments
import Provision.Command.Table
import Provision.Command.Template
import Provision.Plan.Json
import Provision.Settings.Find
import Provision.Settings.Write

/-!
# Commands

The command line: `init` writes a settings file, `plan` prints the plan for the settings of a
project, and `env` prints the environment of the orchestrator. A run is a function of the host,
the environment and the arguments; what it prints and writes is its outcome.
-/

namespace Provision

/-- How a plan is printed. -/
inductive PlanFormat
  | table
  | yaml
  | json
deriving DecidableEq, Repr

/-- The format with a name. -/
def PlanFormat.ofName? : String → Option PlanFormat
  | "table" => some .table
  | "yaml" => some .yaml
  | "json" => some .json
  | _ => none

/-- What a plan is made from. -/
structure PlanRequest where
  /-- The settings file, or the directory to look for it from. -/
  file : HostPath
  noParents : Bool
  scriptsDirectory : Option HostPath
  bindfs : Bool
deriving DecidableEq, Repr

/-- A command with its arguments. -/
inductive Command
  | init (directory : HostPath) (name ip : Option String) (template : Template)
  | plan (request : PlanRequest) (format : PlanFormat)
  | env (request : PlanRequest)
deriving DecidableEq, Repr

/-- The names and values of environment variables. -/
abbrev Environment := List (String × String)

namespace Command

/-! ## Arguments -/

/-- A switch with any text as its value. -/
def textSwitch (long : String) : Switch := ⟨long, none, .value fun _ => true⟩

/-- Whether a text can be a path. -/
def isPath (text : String) : Bool := text != ""

/-- The switches that every command understands. -/
def commonSwitches : List Switch := [
  ⟨"verbose", some 'v', .counter⟩,
  ⟨"quiet", some 'q', .flag⟩,
  ⟨"help", some 'h', .stop .help⟩]

/-- What may come before the name of a command. -/
def topGrammar : Grammar := ⟨commonSwitches ++ [⟨"version", some 'V', .stop .version⟩], 0⟩

def requestSwitches : List Switch := [
  ⟨"file", some 'f', .value isPath⟩,
  ⟨"no-parents", none, .flag⟩,
  ⟨"scripts-dir", none, .value isPath⟩,
  ⟨"bindfs", none, .flag⟩]

def planGrammar : Grammar :=
  ⟨commonSwitches ++ requestSwitches ++
    [⟨"format", none, .value fun name => (PlanFormat.ofName? name).isSome⟩], 0⟩

def envGrammar : Grammar := ⟨commonSwitches ++ requestSwitches, 0⟩

def initGrammar : Grammar :=
  ⟨commonSwitches ++ [textSwitch "name", textSwitch "ip",
    ⟨"template", none, .value fun name => (Template.ofName? name).isSome⟩], 1⟩

/-- The scripts directory that was given, or else the one of the environment. -/
def scriptsDirectory (environment : Environment) (given : Given) : Except Stop (Option HostPath) :=
  match given.value? "scripts-dir", environment.lookup "HOMESTEAD_SCRIPTS_DIR" with
  | some path, _ => .ok (some path)
  | none, some path => if isPath path then .ok (some path) else .error .usage
  | none, none => .ok none

/-- Whether folders are bound once more, as given or else by the environment. -/
def bindfs (environment : Environment) (given : Given) : Except Stop Bool :=
  if given.has "bindfs" then .ok true
  else match environment.lookup "HOMESTEAD_BINDFS" with
    | none | some "false" => .ok false
    | some "true" => .ok true
    | some _ => .error .usage

/-- What a plan is made from, as given. -/
def request (environment : Environment) (given : Given) : Except Stop PlanRequest := do
  return {
    file := (given.value? "file").getD "."
    noParents := given.has "no-parents"
    scriptsDirectory := ← scriptsDirectory environment given
    bindfs := ← bindfs environment given }

/-- The command with a name and these arguments. -/
def ofName (environment : Environment) (name : String) (arguments : List String) :
    Except Stop Command := do
  match name with
  | "plan" =>
    let (given, _) ← planGrammar.read false arguments .nothing
    return .plan (← request environment given)
      (((given.value? "format").bind PlanFormat.ofName?).getD .table)
  | "env" =>
    let (given, _) ← envGrammar.read false arguments .nothing
    return .env (← request environment given)
  | "init" =>
    let (given, _) ← initGrammar.read false arguments .nothing
    let directory := given.positionals.head?.getD "."
    if !isPath directory then throw .usage
    return .init directory (given.value? "name") (given.value? "ip")
      (((given.value? "template").bind Template.ofName?).getD .standard)
  | "help" =>
    match arguments with
    | [] | ["plan"] | ["env"] | ["init"] | ["help"] => throw .help
    | _ => throw .usage
  | _ => throw .usage

/-- The command that arguments ask for. -/
def ofArguments (environment : Environment) (arguments : List String) : Except Stop Command := do
  match ← topGrammar.read true arguments .nothing with
  | (_, name :: rest) => ofName environment name rest
  | (_, []) => throw .usage

/-! ## Runs -/

/-- What comes of a run. -/
structure Outcome where
  exitCode : Nat
  stdout : String
  /-- The code of the error that ended the run. -/
  diagnostic : Option String
  /-- The host afterwards. -/
  host : Host

/-- A run that printed a text. -/
def Outcome.success (host : Host) (stdout : String) : Outcome := ⟨0, stdout, none, host⟩

/-- A run that failed. -/
def Outcome.failure (host : Host) (diagnostic : Option String) : Outcome := ⟨1, "", diagnostic, host⟩

/-- The name and version of the program. -/
def version : String := "homestead 0.3.0"

/-- A plan, with the settings file it was made from. -/
def PlanRequest.plan (request : PlanRequest) (host : Host) : Except Error (HostPath × Plan) := do
  let path ← Settings.find host request.file request.noParents
  let settings ← Settings.load host path
  let options := PlanOptions.ofSettings host settings
  let scripts ← match request.scriptsDirectory with
    | some directory => ScriptsRoot.resolve host directory
    | none => pure options.scripts
  return (path, ← settings.plan host { options with scripts, bindfs := request.bindfs })

/-- The text of a plan in a format. -/
def planText (colours : Bool) (path : HostPath) (plan : Plan) : PlanFormat → Option String
  | .table => some (plan.table colours path)
  | .yaml => do
    let tree ← plan.toJson.toOption
    (Yaml.textOfValue tree.sorted.toValue).toOption
  | .json => do
    let tree ← plan.toJson.toOption
    return tree.pretty ++ "\n"

/-- What a new settings file is announced with. -/
def announcement (path : HostPath) : String :=
  String.join ([
    "Created Homestead.yaml at " ++ Text.quoted path,
    "",
    "Next steps:",
    "  1. Edit the file to map your folders and sites",
    "  2. Run 'homestead plan' to preview the provisioning plan",
    "  3. Run 'homestead env' to see the orchestrator environment"].map (· ++ "\n"))

/-- Whether colours are wanted. -/
def colours (environment : Environment) : Bool :=
  match environment.lookup "CLICOLOR_FORCE" with
  | none | some "0" => false
  | some _ => true

/-- Runs a command. -/
def run (host : Host) (environment : Environment) : Command → Outcome
  | .init directory name ip template =>
    let path := HostPath.join directory "Homestead.yaml"
    if host.hasEntry path then .failure host none
    else
      let text := template.render (name.getD "homestead") (ip.getD "192.168.56.56")
      match host.write? path (some text) with
      | some host => .success host (announcement path)
      | none => .failure host none
  | .plan request format =>
    match PlanRequest.plan request host with
    | .error error => .failure host error.code
    | .ok (path, planned) =>
      match planText (colours environment) path planned format with
      | some text => .success host text
      | none => .failure host none
  | .env request =>
    match PlanRequest.plan request host with
    | .error error => .failure host error.code
    | .ok (_, planned) =>
      .success host (String.join (planned.environment.map fun (key, value) => s!"{key}={value}\n"))

/-- Runs the command that arguments ask for. -/
def runArguments (host : Host) (environment : Environment) (arguments : List String) : Outcome :=
  match ofArguments environment arguments with
  | .ok command => command.run host environment
  | .error .usage => ⟨2, "", none, host⟩
  | .error .help => .success host ""
  | .error .version => .success host (version ++ "\n")

end Command

end Provision
