import Provision.Plan.ScriptsRoot
import Provision.Settings.Basic

/-!
# Options of a plan
-/

namespace Provision

/-- What a plan depends on besides the settings and the host. -/
structure PlanOptions where
  /-- Where relative host paths start. -/
  base : HostPath
  scripts : ScriptsRoot
  /-- Whether mounted folders are bound once more. -/
  bindfs : Bool
deriving DecidableEq, Repr

/-- Options for a base directory and a scripts directory, both taken as they are. -/
def PlanOptions.of (base scripts : HostPath) : PlanOptions :=
  ⟨base, ⟨scripts⟩, false⟩

/-- Options for settings: paths start at the directory of the settings file, or at the working
directory for settings that come from no file, and the scripts are beside them. -/
def PlanOptions.ofSettings (host : Host) (s : Settings) : PlanOptions :=
  let base := s.directory?.getD (Host.pathOf host.workingDirectory)
  .of base (HostPath.join base ScriptsRoot.directoryName)

end Provision
