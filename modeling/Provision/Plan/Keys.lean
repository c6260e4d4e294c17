import Provision.Plan.Directive
import Provision.Plan.Options

/-!
# Keys

The public key that may log in, and the private keys that are copied into the guest. A public key
that is missing is passed over. Private keys are all looked up before the first one is read, so
that nothing is planned when one is missing.
-/

namespace Provision.Settings

/-- Appends its argument to the authorized keys unless that line is there. -/
def authorizeKeyScript : String :=
  "echo $1 | grep -xq \"$1\" /home/vagrant/.ssh/authorized_keys || " ++
    "echo \"\n$1\" | tee -a /home/vagrant/.ssh/authorized_keys"

/-- Writes its first argument to the file named by its second, readable by its owner only. -/
def privateKeyScript : String :=
  "echo \"$1\" > /home/vagrant/.ssh/$2 && chmod 600 /home/vagrant/.ssh/$2"

/-- The directive for the public key, if there is one. -/
def planAuthorizedKey (s : Settings) (host : Host) (o : PlanOptions) :
    Except Error (List Directive) :=
  match s.authorize with
  | none => .ok []
  | some raw =>
    let path := host.expand raw o.base
    if host.hasFile path then do
      let key ← (host.readText path).mapError (.readFailed path)
      return [.shell ((Shell.inline authorizeKeyScript).withArgs [key])]
    else .ok []

/-- The private keys with the paths of their files. -/
def keyFiles (host : Host) (o : PlanOptions) : List String → Except Error (List (String × HostPath))
  | [] => .ok []
  | raw :: rest =>
    let path := host.expand raw o.base
    if host.hasFile path then return (raw, path) :: (← keyFiles host o rest)
    else .error (.privateKeyNotFound path)

/-- The directive that copies one key. -/
def planKeyFile (host : Host) : String × HostPath → Except Error Directive
  | (raw, path) => do
    let key ← (host.readText path).mapError (.readFailed path)
    return .shell
      ((Shell.inline privateKeyScript).withArgs [key, HostPath.writtenName raw]).unprivileged

/-- The directives for the private keys. -/
def planPrivateKeys (s : Settings) (host : Host) (o : PlanOptions) :
    Except Error (List Directive) :=
  match s.keys with
  | none => .ok []
  | some [] => .error .noPrivateKeys
  | some keys => do (← keyFiles host o keys).mapM (planKeyFile host)

end Provision.Settings
