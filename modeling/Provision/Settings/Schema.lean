import Provision.Settings.Codec

/-!
# The fields of settings documents

Every record of a settings document with its fields in the order in which they are written.
-/

namespace Provision

def Network.schema : Record Network where
  name := "NetworkEntry"
  blank := .blank
  fields := [
    .optional "type" .text (·.kind) fun kind network => { network with kind },
    .optional "ip" .text (·.ip) fun ip network => { network with ip },
    .optional "bridge" .text (·.bridge) fun bridge network => { network with bridge }]

def PortMapping.schema : Record PortMapping where
  name := "PortEntry"
  blank := .blank
  fields := [
    .optional "guest" .port (·.guest) fun guest mapping => { mapping with guest },
    .optional "host" .port (·.host) fun host mapping => { mapping with host },
    .optional "to" .port (·.formerGuest)
      fun formerGuest mapping => { mapping with formerGuest },
    .optional "send" .port (·.formerHost)
      fun formerHost mapping => { mapping with formerHost },
    .optional "protocol" .text (·.protocol) fun protocol mapping => { mapping with protocol }]

def FileCopy.schema : Record FileCopy where
  name := "CopyEntry"
  blank := .blank
  fields := [
    .needed "from" .text (·.source) fun source copy => { copy with source },
    .needed "to" .text (·.directory) fun directory copy => { copy with directory }]

def Folder.schema : Record Folder where
  name := "FolderEntry"
  blank := .blank
  fields := [
    .needed "map" .text (·.map) fun map folder => { folder with map },
    .needed "to" .text (·.guestPath) fun guestPath folder => { folder with guestPath },
    .optional "type" .text (·.kind) fun kind folder => { folder with kind },
    { name := "options"
      required := false
      codec := .options
      get := (·.options)
      put := fun options folder => { folder with options }
      omitted := List.isEmpty },
    .optional "mount_options" (.list .text) (·.mountOptions)
      fun mountOptions folder => { folder with mountOptions }]

def SiteParam.schema : Record SiteParam where
  name := "SiteParam"
  blank := .blank
  fields := [
    .needed "key" .text (·.key) fun key param => { param with key },
    .needed "value" .scalar (·.value) fun value param => { param with value }]

def Site.schema : Record Site where
  name := "SiteEntry"
  blank := .blank
  fields := [
    .needed "map" .text (·.map) fun map site => { site with map },
    .optional "to" .text (·.documentRoot)
      fun documentRoot site => { site with documentRoot },
    .optional "type" .text (·.kind) fun kind site => { site with kind },
    .optional "port" .scalar (·.port) fun port site => { site with port },
    { Field.optional "ssl" .scalar (·.ssl) fun ssl site => { site with ssl } with
      otherName := some "ssl_port" },
    .optional "params" (.list SiteParam.schema.codec) (·.params)
      fun params site => { site with params },
    .present "schedule" .truth (·.schedule) fun schedule site => { site with schedule }]

def Settings.schema : Record Settings where
  name := "Settings"
  blank := .blank
  fields := [
    .optional "provider" .text (·.provider) fun provider s => { s with provider },
    .optional "name" .text (·.name) fun name s => { s with name },
    .optional "box" .text (·.box) fun box s => { s with box },
    .optional "version" .text (·.version) fun version s => { s with version },
    .optional "ip" .text (·.ip) fun ip s => { s with ip },
    .list "networks" Network.schema.codec (·.networks) fun networks s => { s with networks },
    .optional "memory" .scalar (·.memory) fun memory s => { s with memory },
    .optional "cpus" .scalar (·.cpus) fun cpus s => { s with cpus },
    .optional "natdnshostresolver" .scalar (·.natdnshostresolver)
      fun natdnshostresolver s => { s with natdnshostresolver },
    .optional "gui" .flag (·.gui) fun gui s => { s with gui },
    .list "ports" PortMapping.schema.codec (·.ports) fun ports s => { s with ports },
    .optional "default_ports" .flag (·.defaultPorts) fun defaultPorts s => { s with defaultPorts },
    .optional "authorize" .text (·.authorize) fun authorize s => { s with authorize },
    .present "keys" (.presentList .text) (·.keys) fun keys s => { s with keys },
    .list "copy" FileCopy.schema.codec (·.copies) fun copies s => { s with copies },
    .list "folders" Folder.schema.codec (·.folders) fun folders s => { s with folders },
    .list "sites" Site.schema.codec (·.sites) fun sites s => { s with sites },
    .optional "service" .text (·.service) fun service s => { s with service },
    .list "DBMS" .text (·.databases) fun databases s => { s with databases }]

end Provision
