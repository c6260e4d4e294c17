import Provision.Plan.Basic
import Provision.Text.Quoted

/-!
# Plans as tables

A plan for people to read: the environment of the orchestrator and one line a directive, in
colours where they are wanted.
-/

namespace Provision

/-- How a part of a line stands out. -/
inductive Accent
  | bold
  | dimmed
  | cyan
  | green
  | yellow
deriving DecidableEq, Repr

/-- The sequence that starts an accent. -/
def Accent.code : Accent → List Char
  | .bold => ['\x1b', '[', '1', 'm']
  | .dimmed => ['\x1b', '[', '2', 'm']
  | .cyan => ['\x1b', '[', '3', '6', 'm']
  | .green => ['\x1b', '[', '3', '2', 'm']
  | .yellow => ['\x1b', '[', '3', '3', 'm']

/-- The sequence that ends every accent. -/
def Accent.reset : List Char := ['\x1b', '[', '0', 'm']

/-- A text with the accent started again after each of its own resets. -/
def Accent.restarted (accent : Accent) : List Char → List Char
  | '\x1b' :: '[' :: '0' :: 'm' :: rest => Accent.reset ++ accent.code ++ accent.restarted rest
  | c :: rest => c :: accent.restarted rest
  | [] => []

/-- A text with an accent, where colours are wanted. -/
def Accent.apply (accent : Accent) (colours : Bool) (text : String) : String :=
  if colours then
    String.ofList (accent.code ++ accent.restarted text.toList ++ Accent.reset)
  else text

/-- Texts as a list of quoted texts. -/
def quotedList (texts : List String) : String :=
  "[" ++ ", ".intercalate (texts.map Text.quoted) ++ "]"

/-- A port, or a question mark. -/
def portLabel (port : Option UInt16) : String :=
  (port.map fun n => toString n.toNat).getD "?"

/-- What follows a word when a condition holds. -/
def when (condition : Bool) (text : String) : String :=
  if condition then text else ""

/-- The line of a directive. -/
def Directive.line (colours : Bool) : Directive → String :=
  let word := Accent.yellow.apply colours
  let green := Accent.green.apply colours
  let cyan := Accent.cyan.apply colours
  fun
  | .ssh session =>
    word "ssh" ++ " shell=" ++ Text.quoted session.shell ++ " forward_agent=" ++
      (if session.forwardAgent then "true" else "false")
  | .machine m => word "machine" ++ " " ++ green m.name ++ s!" ({m.box} {m.version})"
  | .provider tuning =>
    let flags := " ".intercalate (tuning.customizations.map fun (flag, value) => flag ++ " " ++ value)
    word "provider" ++ " " ++ green tuning.provider ++ " " ++ Accent.dimmed.apply colours flags ++
      when tuning.gui " [gui]"
  | .network n =>
    word "network" ++ " " ++ green (n.kind.getD "-") ++ " " ++ n.ip.getD "-" ++
      (n.bridge.map (" bridge=" ++ ·)).getD ""
  | .forwardedPort port =>
    word "port" ++ s!" {portLabel port.host} -> {portLabel port.guest} ({port.protocol})"
  | .shell sh =>
    let source := match sh.source with
      | .path location => location
      | .inline body => "inline: " ++ Text.quoted body
    word "shell" ++ " " ++ (sh.name.map fun name => green name ++ " ").getD "" ++ cyan source ++
      when (!sh.args.isEmpty) (" " ++ quotedList sh.args) ++
      when (!sh.privileged) " [unprivileged]"
  | .file upload => word "file" ++ " " ++ cyan upload.source ++ " -> " ++ upload.destination
  | .syncedFolder folder =>
    word "folder" ++ " " ++ cyan folder.map ++ " -> " ++ folder.guestPath ++
      (folder.kind.map fun kind => s!" [{kind}]").getD ""
  | .bindFolder folder => word "bindfs" ++ " " ++ cyan folder.source ++ " -> " ++ folder.target

/-- A number at the end of three columns. -/
def rightAligned (n : Nat) : String :=
  let digits := Nat.toDigits 10 n
  String.ofList (List.replicate (3 - digits.length) ' ' ++ digits)

/-- The numbered lines of directives. -/
def directiveLines (colours : Bool) : (number : Nat) → List Directive → List String
  | _, [] => []
  | number, directive :: rest =>
    ("  " ++ rightAligned number ++ ". " ++ directive.line colours) ::
      directiveLines colours (number + 1) rest

/-- The table of a plan for the settings in a file. -/
def Plan.table (plan : Plan) (colours : Bool) (settingsPath : HostPath) : String :=
  let bold := Accent.bold.apply colours
  let lines :=
    [bold "Settings:" ++ " " ++ Accent.cyan.apply colours settingsPath, "",
      bold "Run Context:"] ++
    plan.environment.map (fun (key, value) =>
      "  " ++ Accent.cyan.apply colours key ++ " = " ++ Accent.green.apply colours value) ++
    ["", bold "Directives:", ""] ++
    (if plan.directives.isEmpty then
      ["  " ++ Accent.dimmed.apply colours "(no directives)"] else []) ++
    directiveLines colours 1 plan.directives ++
    ["", s!"Total: {plan.directives.length} directive(s)"]
  String.join (lines.map (· ++ "\n"))

end Provision
