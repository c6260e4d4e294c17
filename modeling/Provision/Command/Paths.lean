import Provision.Command.Run

/-!
# The paths a command asks about

A run sees the host as a value, so the part of the disk it will look at has to be known before. The
settings tell more paths once they are found, so the question is asked again with what the first
answer showed.
-/

namespace Provision

/-- The host paths that settings mention. -/
def Settings.mentioned (s : Settings) (host : Host) (o : PlanOptions) : List HostPath :=
  ((s.authorize.toList ++ s.keys.getD [] ++ s.folders.map Folder.map).map fun raw =>
    host.expand raw o.base) ++ s.databases.map o.scripts.installScript

/-- The paths that a plan depends on, as far as the disk shows. -/
def PlanRequest.paths (request : PlanRequest) (host : Host) : List HostPath :=
  let start := Settings.startPath host request.file
  let files := (start :: HostPath.parents start).flatMap fun directory =>
    Settings.fileNames.map (HostPath.join directory)
  let mentioned := match Settings.findAndLoad host request.file request.noParents with
    | .error _ => []
    | .ok settings =>
      let o := PlanOptions.ofSettings host settings
      let scripts := match request.scriptsDirectory with
        | some directory => (ScriptsRoot.resolve host directory).toOption.getD o.scripts
        | none => o.scripts
      settings.mentioned host { o with scripts }
  start :: files ++ request.scriptsDirectory.toList ++ mentioned

/-- The paths that a command depends on, as far as the disk shows. -/
def Command.paths (host : Host) : Command → List HostPath
  | .init directory _ _ _ => [HostPath.join directory "Homestead.yaml"]
  | .plan request _ | .env request => request.paths host

end Provision
