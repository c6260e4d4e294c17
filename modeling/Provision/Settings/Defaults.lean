import Provision.Settings.Basic

/-!
# Defaults

Normalizing settings fills in what a document leaves unset and keeps all it says. The machine's
fields come from `Defaults`; ports take the older spellings of their fields, and sites get a type,
a port and a port for TLS.
-/

namespace Provision

/-- What the machine is unless the settings say otherwise. -/
structure Defaults where
  provider : String := "virtualbox"
  name : String := "vagrant-name"
  box : String := "ubuntu/bionic64"
  version : String := ">= 2.0.0"
  ip : String := "192.168.15.10"
  memory : String := "2048"
  cpus : String := "1"
  natdnshostresolver : String := "on"
deriving DecidableEq, Repr

/-- The protocol of a port mapping that names none. -/
def defaultProtocol : String := "tcp"

/-- The type of a site that names none. -/
def defaultSiteType : String := "apache"

def defaultSitePort : String := "80"

def defaultSiteSslPort : String := "443"

/-- Older names of site types, with the types they stand for. -/
def siteTypeAliases : List (String × String) := [("symfony", "symfony2")]

/-- The site type a name stands for. -/
def canonicalSiteType (kind : String) : String :=
  (siteTypeAliases.lookup kind).getD kind

/-- The mapping with its older fields in the place of unset ones, and with a protocol. -/
def PortMapping.normalized (mapping : PortMapping) : PortMapping :=
  { mapping with
    guest := mapping.guest.or mapping.formerGuest
    host := mapping.host.or mapping.formerHost
    protocol := mapping.protocol.or (some defaultProtocol) }

/-- The site with its type, its port and its port for TLS. -/
def Site.normalized (site : Site) : Site :=
  { site with
    kind := some (canonicalSiteType (site.kind.getD defaultSiteType))
    port := site.port.or (some defaultSitePort)
    ssl := site.ssl.or (some defaultSiteSslPort) }

/-- The settings with everything set that a plan needs. -/
def Settings.normalizedWith (s : Settings) (defaults : Defaults) : Settings :=
  { s with
    provider := s.provider.or (some defaults.provider)
    name := s.name.or (some defaults.name)
    box := s.box.or (some defaults.box)
    version := s.version.or (some defaults.version)
    ip := s.ip.or (some defaults.ip)
    memory := s.memory.or (some defaults.memory)
    cpus := s.cpus.or (some defaults.cpus)
    natdnshostresolver := s.natdnshostresolver.or (some defaults.natdnshostresolver)
    ports := s.ports.map PortMapping.normalized
    sites := s.sites.map Site.normalized }

/-- The settings normalized with the built-in defaults. -/
def Settings.normalized (s : Settings) : Settings :=
  s.normalizedWith {}

end Provision
