import Provision.Plan.Directive

/-!
# The machine and its networks

The session, the machine, its provider, its networks and its forwarded ports. The built-in forwards
come first; one is left out when the settings map its guest port themselves.
-/

namespace Provision

/-- The login shell. It reads the profile, and keeps provisioners from asking for a terminal. -/
def sshShell : String := "bash -c 'BASH_ENV=/etc/profile exec bash'"

/-- The provider that customizations are written for. -/
def virtualbox : String := "virtualbox"

/-- The kind of the machine's own network. -/
def privateNetwork : String := "private_network"

/-- The guest and host ports of the built-in forwards. -/
def defaultForwards : List (UInt16 × UInt16) :=
  [(80, 8000), (443, 44300), (3306, 33060), (5432, 54320), (8025, 8025), (27017, 27017)]

def planSsh : Directive :=
  .ssh ⟨sshShell, true⟩

namespace Settings

def planMachine (s : Settings) : Directive :=
  .machine ⟨s.name.getD "", s.box.getD "", s.version.getD ""⟩

def planProvider (s : Settings) : Directive :=
  .provider
    { provider := virtualbox
      name := s.name.getD ""
      customizations := [
        ("--memory", s.memory.getD ""),
        ("--cpus", s.cpus.getD ""),
        ("--natdnsproxy1", "on"),
        ("--natdnshostresolver1", s.natdnshostresolver.getD ""),
        ("--ostype", "Ubuntu_64")]
      gui := s.gui.getD false }

/-- The private network with the machine's address. -/
def planPrimaryNetwork (s : Settings) : Directive :=
  .network ⟨some privateNetwork, s.ip, none⟩

/-- The other networks, as they are written. -/
def planNetworks (s : Settings) : List Directive :=
  s.networks.map .network

/-- The forward a mapping asks for. -/
def forwardOf (mapping : PortMapping) : ForwardedPort :=
  ⟨mapping.guest, mapping.host, mapping.protocol.getD defaultProtocol, true⟩

/-- The built-in forwards that stay. -/
def keptForwards (s : Settings) : List (UInt16 × UInt16) :=
  if s.defaultPorts = some false then []
  else defaultForwards.filter fun (guest, _) => !s.ports.any (·.guest == some guest)

/-- The forwarded ports. -/
def planForwards (s : Settings) : List Directive :=
  (s.keptForwards.map fun (guest, host) => .forwardedPort (.tcp guest host)) ++
    s.ports.map fun mapping => .forwardedPort (forwardOf mapping)

end Settings

end Provision
