import Provision.Command.Paths

/-!
# The program

Takes a picture of the part of the disk that a command asks about, runs the command on it, writes
the files that the run made, and prints what it printed.
-/

namespace Provision.Program

/-- What is at a location of the disk. -/
def probe (location : Location) : IO (Option Entry) := do
  try
    let bytes ← IO.FS.readBinFile (Host.pathOf location)
    return some (.file (String.fromUTF8? bytes))
  catch
    | .inappropriateType .. => return some .directory
    | _ => return none

/-- Adds what lies on the way through path components. -/
def picture (disk : Disk) (here : Location) : List String → IO Disk
  | [] => return disk
  | name :: rest =>
    if name = "." then picture disk here rest
    else if name = ".." then picture disk here.dropLast rest
    else do
      let next := here ++ [name]
      match ← probe next with
      | none => return disk
      | some entry => picture (disk.put next entry) next rest

/-- Adds what lies on the way to paths. -/
def pictures (host : Host) (paths : List HostPath) : IO Host := do
  let mut disk := host.disk
  for path in paths do
    let start := if HostPath.isAbsolute path then [] else host.workingDirectory
    disk ← picture disk [] (start ++ Host.steps path)
  return { host with disk }

/-- An environment variable with its value, if it is set. -/
def setting (name : String) : IO Environment := do
  return ((← IO.getEnv name).map fun value => (name, value)).toList

/-- Runs the command that arguments ask for. -/
def start (arguments : List String) : IO UInt32 := do
  let environment := (← setting "HOMESTEAD_SCRIPTS_DIR") ++ (← setting "HOMESTEAD_BINDFS") ++
    (← setting "CLICOLOR_FORCE")
  let home := (← IO.getEnv "HOME").getD "/"
  let here := (← IO.currentDir).toString
  let workingDirectory := (here.splitOn "/").filter (!·.isEmpty)
  let bare : Host := ⟨Disk.empty, home, workingDirectory, ← IO.getEnv "PWD"⟩
  let host ← match Command.ofArguments environment arguments with
    | .error _ => pure bare
    | .ok command =>
      let first ← pictures bare (command.paths bare)
      pictures first (command.paths first)
  let outcome := Command.runArguments host environment arguments
  for (location, entry) in outcome.host.disk.entries do
    if let .file (some text) := entry then
      if host.disk.lookup? location != some entry then
        IO.FS.writeFile (Host.pathOf location) text
  (← IO.getStdout).putStr outcome.stdout
  if let some code := outcome.diagnostic then
    (← IO.getStderr).putStrLn ("Error: " ++ code)
  return outcome.exitCode.toUInt32

end Provision.Program

def main (arguments : List String) : IO UInt32 :=
  Provision.Program.start arguments
