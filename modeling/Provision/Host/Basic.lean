import Provision.Host.Disk
import Provision.Host.Path

/-!
# The host a run sees

The disk together with the home directory, the working directory and the `PWD` the shell left. All
questions about files are asked of a host by path text.
-/

namespace Provision

/-- What a run can observe of the machine it runs on. -/
structure Host where
  disk : Disk
  /-- The home directory of the user. -/
  home : HostPath
  workingDirectory : Location
  /-- The value of `PWD`, if it is set. -/
  pwd : Option String
deriving Repr

namespace Host

/-- The absolute path of a location. -/
def pathOf (location : Location) : HostPath :=
  "/" ++ "/".intercalate location

/-- The components a lookup follows; a separator at the end asks for a directory. -/
def steps (path : HostPath) : List String :=
  let segments := HostPath.segments path.toList
  (segments.filter (!·.isEmpty)).map String.ofList ++
    (if segments.getLast? == some [] then ["."] else [])

/-- Where a path leads. -/
def locate (host : Host) (path : HostPath) : Except ReadFault Location :=
  if path = "" then .error .notFound
  else host.disk.walk (if HostPath.isAbsolute path then [] else host.workingDirectory) (steps path)

/-- What a path leads to. -/
def entryAt? (host : Host) (path : HostPath) : Option Entry :=
  match host.locate path with
  | .ok location => host.disk.lookup? location
  | .error _ => none

/-- Whether the path leads anywhere. -/
def hasEntry (host : Host) (path : HostPath) : Bool :=
  (host.entryAt? path).isSome

/-- Whether the path leads to a regular file. -/
def hasFile (host : Host) (path : HostPath) : Bool :=
  match host.entryAt? path with
  | some (.file _) => true
  | _ => false

/-- Whether the path leads to a directory. -/
def hasDirectory (host : Host) (path : HostPath) : Bool :=
  host.entryAt? path == some .directory

/-- The text of the file a path leads to. -/
def readText (host : Host) (path : HostPath) : Except ReadFault String := do
  let location ← host.locate path
  match host.disk.lookup? location with
  | some (.file (some text)) => .ok text
  | some (.file none) => .error .invalidData
  | some .directory => .error .isADirectory
  | none => .error .notFound

/-- The path of the place a path leads to, without dots or doubled separators. -/
def resolved? (host : Host) (path : HostPath) : Option HostPath :=
  (host.locate path).toOption.map pathOf

/-- The host after a file was written at a path whose directory exists; none when there is no such
directory, or a directory is in the way. -/
def write? (host : Host) (path : HostPath) (text : Option String) : Option Host :=
  match (steps path).getLast? with
  | none => none
  | some name =>
    if name = "." || name = ".." then none
    else
      let start := if HostPath.isAbsolute path then [] else host.workingDirectory
      match host.disk.walk start (steps path).dropLast with
      | .error _ => none
      | .ok directory =>
        if host.disk.lookup? directory == some .directory &&
            host.disk.lookup? (directory ++ [name]) != some .directory then
          some { host with disk := host.disk.put (directory ++ [name]) (.file text) }
        else none

/-- A host path as written in the settings: `~` and `~/…` start at the home directory, and other
relative paths at `base`. -/
def expand (host : Host) (raw : String) (base : HostPath) : HostPath :=
  match raw.toList with
  | ['~'] => HostPath.join host.home ""
  | '~' :: '/' :: rest => HostPath.join host.home (String.ofList rest)
  | _ => HostPath.join base raw

end Host

end Provision
