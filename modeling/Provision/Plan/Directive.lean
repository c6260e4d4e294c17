import Provision.Settings.Defaults

/-!
# Directives

A plan is a list of directives: what an orchestrator has to do, one unit of work each.
-/

namespace Provision

/-- The shell behind every command in the guest. -/
structure SshSession where
  shell : String
  forwardAgent : Bool
deriving DecidableEq, Repr

/-- The identity of the machine and its base image. -/
structure Machine where
  name : String
  box : String
  version : String
deriving DecidableEq, Repr

/-- Flags for the provider of the machine. -/
structure Tuning where
  provider : String
  name : String
  customizations : List (String × String)
  gui : Bool
deriving DecidableEq, Repr

/-- A port of the guest reachable through a port of the host. With `autoCorrect` another port of
the host may be taken when that one is in use. -/
structure ForwardedPort where
  guest : Option UInt16
  host : Option UInt16
  protocol : String
  autoCorrect : Bool
deriving DecidableEq, Repr

/-- Where a script comes from. -/
inductive ScriptSource
  /-- A file on the host. -/
  | path (path : HostPath)
  | inline (body : String)
deriving DecidableEq, Repr

/-- A script run in the guest. -/
structure Shell where
  name : Option String
  source : ScriptSource
  args : List String
  privileged : Bool
deriving DecidableEq, Repr

/-- A host file uploaded into the guest. -/
structure Upload where
  source : HostPath
  destination : String
deriving DecidableEq, Repr

/-- A host folder mounted in the guest. -/
structure SyncedFolder where
  map : String
  guestPath : String
  kind : Option String
  options : Options

/-- A mounted folder mounted once more to give its files the right owner. -/
structure BindFolder where
  source : String
  target : String
deriving DecidableEq, Repr

/-- One unit of an orchestrator's work. -/
inductive Directive
  | ssh (session : SshSession)
  | machine (machine : Machine)
  | provider (tuning : Tuning)
  | network (network : Network)
  | forwardedPort (port : ForwardedPort)
  | shell (shell : Shell)
  | file (upload : Upload)
  | syncedFolder (folder : SyncedFolder)
  | bindFolder (folder : BindFolder)

/-- A forward of a TCP port. -/
def ForwardedPort.tcp (guest host : UInt16) : ForwardedPort :=
  ⟨some guest, some host, defaultProtocol, true⟩

namespace Shell

/-- A script without name and arguments, run by root. -/
def ofSource (source : ScriptSource) : Shell := ⟨none, source, [], true⟩

/-- The script file at a path. -/
def script (path : HostPath) : Shell := ofSource (.path path)

/-- A script given by its text. -/
def inline (body : String) : Shell := ofSource (.inline body)

/-- The same script under a name. -/
def named (shell : Shell) (name : String) : Shell := { shell with name := some name }

/-- The same script with these arguments only. -/
def withArgs (shell : Shell) (args : List String) : Shell := { shell with args }

/-- The same script run by the login user. -/
def unprivileged (shell : Shell) : Shell := { shell with privileged := false }

end Shell

end Provision
