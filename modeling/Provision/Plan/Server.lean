import Provision.Plan.Directive
import Provision.Plan.Options

/-!
# Sites and services

Every site gets two scripts: the one that sets it up, and one that installs its schedule or
removes what an earlier run left of it. After the sites come the primary web service and the
database systems that have an install script.
-/

namespace Provision

/-- Removes the schedule named by its argument. -/
def removeScheduleScript : String := "rm -f /etc/cron.d/$1"

/-- The web services that can be the primary one, with the server each replaces. -/
def primaryServices : List (String × String) := [("apache", "nginx")]

/-- Parameters as the scripts read them, `( [key]=value … )`, keys and values as they are. -/
def paramBlock (params : List SiteParam) : String :=
  "(" ++ String.join (params.map fun param => s!" [{param.key}]={param.value}") ++ " )"

/-- Whether a schedule's name may hold a character. -/
def isScheduleChar (c : Char) : Bool := c.isAlphanum

/-- The name of a host's schedule: its letters and digits. -/
def scheduleId (map : String) : String :=
  String.ofList (map.toList.filter isScheduleChar)

namespace Site

/-- The script that sets up a site. -/
def planSetup (site : Site) (o : PlanOptions) : Directive :=
  let kind := canonicalSiteType (site.kind.getD defaultSiteType)
  .shell
    (((Shell.script (o.scripts.siteScript kind)).named ("Creating Site: " ++ site.map)).withArgs [
      site.map,
      site.documentRoot.getD "",
      site.port.getD defaultSitePort,
      site.ssl.getD defaultSiteSslPort,
      (site.params.map paramBlock).getD ""])

/-- The script about the schedule of a site. -/
def planSchedule (site : Site) (o : PlanOptions) : Directive :=
  let id := scheduleId site.map
  match site.schedule with
  | some true =>
    .shell (((Shell.script o.scripts.cronSchedule).named "Creating Schedule").withArgs
      [id, site.documentRoot.getD ""])
  | some false =>
    .shell (((Shell.inline removeScheduleScript).named "Creating Schedule").withArgs [id])
  | none =>
    .shell (((Shell.inline removeScheduleScript).named "Checking for old Schedule").withArgs [id])

end Site

namespace Settings

/-- The directives for the sites. -/
def planSites (s : Settings) (o : PlanOptions) : List Directive :=
  s.sites.flatMap fun site => [site.planSetup o, site.planSchedule o]

/-- The directives for the primary web service: the other server's sites go first. -/
def planPrimaryService (s : Settings) (o : PlanOptions) : List Directive :=
  match s.service with
  | none => []
  | some service =>
    match primaryServices.lookup service with
    | none => []
    | some replaced =>
      [.shell (.script (o.scripts.clearSiteScript replaced)),
        .shell (.script (o.scripts.installScript service))]

/-- The directives for the database systems that have an install script. -/
def planDatabases (s : Settings) (host : Host) (o : PlanOptions) : List Directive :=
  (s.databases.map o.scripts.installScript).filter host.hasFile |>.map fun path =>
    .shell (.script path)

end Settings

end Provision
