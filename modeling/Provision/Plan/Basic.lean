import Provision.Plan.Folders
import Provision.Plan.Keys
import Provision.Plan.Machine
import Provision.Plan.Server

/-!
# Plans

A plan is everything the orchestrator has to do, in order, and the provider it starts with. Settings
are normalized before they are planned; an error in any part means that there is no plan.
-/

namespace Provision

/-- The variable that tells the orchestrator its provider. -/
def defaultProviderVariable : String := "VAGRANT_DEFAULT_PROVIDER"

/-- What an orchestrator has to do. -/
structure Plan where
  defaultProvider : String
  directives : List Directive

namespace Plan

/-- The environment of the orchestrator. -/
def environment (plan : Plan) : List (String × String) :=
  [(defaultProviderVariable, plan.defaultProvider)]

/-- The plan for normalized settings. -/
def ofNormalized (s : Settings) (host : Host) (o : PlanOptions) : Except Error Plan := do
  let authorized ← s.planAuthorizedKey host o
  let keys ← s.planPrivateKeys host o
  return {
    defaultProvider := s.provider.getD ""
    directives :=
      [planSsh, s.planMachine, s.planProvider, s.planPrimaryNetwork] ++ s.planNetworks ++
        s.planForwards ++ authorized ++ keys ++ s.planCopies host o ++ s.planFolders host o ++
        s.planSites o ++ s.planPrimaryService o ++ s.planDatabases host o }

end Plan

/-- The plan for settings. -/
def Settings.plan (s : Settings) (host : Host) (o : PlanOptions) : Except Error Plan :=
  Plan.ofNormalized s.normalized host o

end Provision
