import Provision.Plan.Directive
import Provision.Plan.Options

/-!
# Files and folders

Host files copied into the guest, and host folders shared with it. A folder that is missing on the
host is replaced by a script that says so.
-/

namespace Provision

/-- The option of a shared folder that holds its mount options. -/
def mountOptionsKey : String := "mount_options"

/-- Says in the guest that a folder is missing. -/
def missingFolderScript : String :=
  ">&2 echo \"Unable to mount one of your folders. Please check your folders in Homestead.yaml\""

namespace FileCopy

/-- The guest path a file is copied to. -/
def destination (copy : FileCopy) : String :=
  let directory := match copy.directory.toList.reverse with
    | '/' :: rest => String.ofList rest.reverse
    | _ => copy.directory
  directory ++ "/" ++ HostPath.writtenName copy.source

end FileCopy

namespace Folder

/-- The mount options of a folder: its own, or else those of its type. -/
def effectiveMountOptions (folder : Folder) : List String :=
  match folder.mountOptions with
  | some own => own
  | none =>
    match folder.kind with
    | some "nfs" => ["actimeo=1", "nolock"]
    | some "smb" => ["vers=3.02", "mfsymlinks"]
    | _ => []

/-- The options of a folder, with mount options unless it names some there itself. -/
def plannedOptions (folder : Folder) : Options :=
  if folder.options.any (·.1 == mountOptionsKey) then folder.options
  else folder.options ++ [(mountOptionsKey, .list (folder.effectiveMountOptions.map .text))]

/-- The directives for a folder. -/
def plan (folder : Folder) (host : Host) (o : PlanOptions) : List Directive :=
  if host.hasEntry (host.expand folder.map o.base) then
    .syncedFolder ⟨folder.map, folder.guestPath, folder.kind, folder.plannedOptions⟩ ::
      (if o.bindfs then [.bindFolder ⟨folder.guestPath, folder.guestPath⟩] else [])
  else [.shell (.inline missingFolderScript)]

end Folder

namespace Settings

/-- The directives for copied files. -/
def planCopies (s : Settings) (host : Host) (o : PlanOptions) : List Directive :=
  s.copies.map fun copy => .file ⟨host.expand copy.source o.base, copy.destination⟩

/-- The directives for shared folders. -/
def planFolders (s : Settings) (host : Host) (o : PlanOptions) : List Directive :=
  s.folders.flatMap fun folder => folder.plan host o

end Settings

end Provision
