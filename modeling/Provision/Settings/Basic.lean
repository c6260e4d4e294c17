import Provision.Host.Path
import Provision.Number.Format
import Provision.Value

/-!
# Settings of a machine

What a settings document says about a machine, its networks and ports, the keys and files copied
into it, the folders shared with it and the sites it serves. A field that a document leaves out is
`none`, or an empty list where an empty list means the same.
-/

namespace Provision

/-- A network the machine is attached to besides its own. -/
structure Network where
  kind : Option String
  ip : Option String
  bridge : Option String
deriving DecidableEq, Repr

/-- A port of the machine made reachable through a port of its host. -/
structure PortMapping where
  guest : Option UInt16
  host : Option UInt16
  /-- The guest's port as older documents spell it, with the key `to`. -/
  formerGuest : Option UInt16
  /-- The host's port as older documents spell it, with the key `send`. -/
  formerHost : Option UInt16
  protocol : Option String
deriving DecidableEq, Repr

/-- A host file copied into a directory of the guest. -/
structure FileCopy where
  source : String
  /-- The guest directory. -/
  directory : String
deriving DecidableEq, Repr

/-- Options by name, in document order. -/
abbrev Options := List (String × Value)

/-- A host folder shared with the guest. -/
structure Folder where
  /-- The host path, as written. -/
  map : String
  guestPath : String
  kind : Option String
  options : Options
  mountOptions : Option (List String)

/-- A parameter of a site's server script. -/
structure SiteParam where
  key : String
  value : String
deriving DecidableEq, Repr

/-- A site served by the guest. -/
structure Site where
  /-- The host name the site answers to. -/
  map : String
  /-- The directory in the guest that is served. -/
  documentRoot : Option String
  kind : Option String
  port : Option String
  ssl : Option String
  params : Option (List SiteParam)
  /-- Whether the site has scheduled jobs, if the document says so either way. -/
  schedule : Option Bool
deriving DecidableEq, Repr

/-- A settings document. -/
structure Settings where
  provider : Option String
  name : Option String
  box : Option String
  version : Option String
  ip : Option String
  networks : List Network
  memory : Option String
  cpus : Option String
  natdnshostresolver : Option String
  gui : Option Bool
  ports : List PortMapping
  defaultPorts : Option Bool
  authorize : Option String
  /-- The private keys; an empty list says that the document has the field and no key in it. -/
  keys : Option (List String)
  copies : List FileCopy
  folders : List Folder
  sites : List Site
  service : Option String
  databases : List String
  /-- The path of the file the document was read from. -/
  sourcePath : Option HostPath

/-- The options after one was set: a known name keeps its place, a new one goes to the end. -/
def Options.set (options : Options) (name : String) (value : Value) : Options :=
  if options.any (·.1 == name) then
    options.map fun entry => if entry.1 == name then (name, value) else entry
  else options ++ [(name, value)]

/-- The text a bare value has in a field that holds text: numbers are written plainly, and flags
are toggles. -/
def Atom.fieldText? : Atom → Option String
  | .null => none
  | .bool b => some (if b then "on" else "off")
  | .int n =>
    -- beyond the signed range a number is a floating point number
    if n < Nat.pow 2 63 then some (toString n)
    else some ((Double.ofDecimal false ⟨n.toNat, 0⟩).text NumberFormat.plain)
  | .wideInt _ => none
  | .float x => some (x.text NumberFormat.plain)
  | .text s => some s

/-! ## Blank values

Every field of a blank value is what a document means that leaves the field out; the texts of
required fields are never seen, since reading fails without them. -/

def Network.blank : Network := ⟨none, none, none⟩

def PortMapping.blank : PortMapping := ⟨none, none, none, none, none⟩

def FileCopy.blank : FileCopy := ⟨"", ""⟩

def Folder.blank : Folder := ⟨"", "", none, [], none⟩

def SiteParam.blank : SiteParam := ⟨"", ""⟩

def Site.blank : Site := ⟨"", none, none, none, none, none, none⟩

/-- The settings of an empty document. -/
def Settings.blank : Settings where
  provider := none
  name := none
  box := none
  version := none
  ip := none
  networks := []
  memory := none
  cpus := none
  natdnshostresolver := none
  gui := none
  ports := []
  defaultPorts := none
  authorize := none
  keys := none
  copies := []
  folders := []
  sites := []
  service := none
  databases := []
  sourcePath := none

/-! ## Sameness

Options are the same when they hold the same entries in any order; all else is compared as it
stands. -/

/-- Whether two options hold the same entries. -/
def Options.same (a b : Options) : Bool :=
  a.length == b.length &&
    a.all fun (name, value) => b.any fun (other, found) => name == other && value.same found

/-- Whether two folders say the same. -/
def Folder.same (a b : Folder) : Bool :=
  a.map == b.map && a.guestPath == b.guestPath && a.kind == b.kind && Options.same a.options b.options &&
    a.mountOptions == b.mountOptions

/-- Whether two settings say the same and come from the same file. -/
def Settings.same (a b : Settings) : Bool :=
  a.provider == b.provider && a.name == b.name && a.box == b.box && a.version == b.version &&
    a.ip == b.ip && a.networks == b.networks && a.memory == b.memory && a.cpus == b.cpus &&
    a.natdnshostresolver == b.natdnshostresolver && a.gui == b.gui && a.ports == b.ports &&
    a.defaultPorts == b.defaultPorts && a.authorize == b.authorize && a.keys == b.keys &&
    a.copies == b.copies && a.folders.length == b.folders.length &&
    (a.folders.zip b.folders).all (fun (x, y) => x.same y) && a.sites == b.sites &&
    a.service == b.service && a.databases == b.databases && a.sourcePath == b.sourcePath

/-- The directory the settings file is in. -/
def Settings.directory? (s : Settings) : Option HostPath :=
  s.sourcePath.bind HostPath.parent?

end Provision
