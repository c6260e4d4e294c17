import Provision.Error
import Provision.Host.Basic

/-!
# Provisioning scripts

The scripts that directives run are files below one directory, laid out by site type and by
service or database system. Only their places are known here.
-/

namespace Provision

/-- The directory of the provisioning scripts. -/
structure ScriptsRoot where
  path : HostPath
deriving DecidableEq, Repr

namespace ScriptsRoot

/-- The name of the scripts directory beside a settings file. -/
def directoryName : String := "scripts"

/-- An existing scripts directory, by its absolute path. -/
def resolve (host : Host) (path : HostPath) : Except Error ScriptsRoot :=
  match host.resolved? path with
  | none => .error (.scriptsRootNotFound path)
  | some path =>
    if host.hasDirectory path then .ok ⟨path⟩ else .error (.scriptsRootNotFound path)

variable (root : ScriptsRoot)

/-- The script that sets up a site of a type. -/
def siteScript (kind : String) : HostPath :=
  HostPath.join (HostPath.join root.path "servers") s!"serve-{kind}.sh"

/-- The script that installs a schedule. -/
def cronSchedule : HostPath :=
  HostPath.join root.path "cron-schedule.sh"

/-- A script about a service or database system. -/
def systemScript (system script : String) : HostPath :=
  HostPath.join (HostPath.join (HostPath.join root.path "settings") system) script

/-- The script that installs a service or database system. -/
def installScript (system : String) : HostPath :=
  root.systemScript system "install.sh"

/-- The script that removes the sites of a web server. -/
def clearSiteScript (system : String) : HostPath :=
  root.systemScript system "clear-site.sh"

end ScriptsRoot

end Provision
