import Provision.Settings.Load

/-!
# Finding settings

A run starts from a path. A file is taken as it is; for a directory the settings file is looked
for there and then in the directories above, nearest first.
-/

namespace Provision.Settings

/-- The names of settings files, the preferred one first. -/
def fileNames : List String := ["Homestead.yaml", "Homestead.json"]

/-- The absolute form of a start path. A relative one starts at `PWD`, which keeps the links the
user came by, or else at the working directory. -/
def startPath (host : Host) (path : HostPath) : HostPath :=
  if HostPath.isAbsolute path then path
  else HostPath.join (host.pwd.getD (Host.pathOf host.workingDirectory)) path

/-- The settings file of a directory. -/
def fileIn? (host : Host) (directory : HostPath) : Option HostPath :=
  (fileNames.map (HostPath.join directory)).find? host.hasFile

/-- The settings file for a start path. -/
def find (host : Host) (path : HostPath) (noParents : Bool) : Except Error HostPath :=
  let start := startPath host path
  if host.hasFile start then .ok start
  else if !host.hasDirectory start then .error (.notFoundAtPath start)
  else if noParents then
    match fileIn? host start with
    | some found => .ok found
    | none => .error (.notFoundAtPath start)
  else
    match (start :: HostPath.parents start).findSome? (fileIn? host) with
    | some found => .ok found
    | none => .error (.notFoundInTree start)

/-- The settings for a start path. -/
def findAndLoad (host : Host) (path : HostPath) (noParents : Bool) : Except Error Settings := do
  load host (← find host path noParents)

end Provision.Settings
