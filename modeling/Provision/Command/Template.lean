/-!
# Templates of settings files

What a new settings file says, with the machine's name and address filled in.
-/

namespace Provision

/-- How much a new settings file says. -/
inductive Template
  | minimal
  | standard
  | full
deriving DecidableEq, Repr

namespace Template

/-- The template with a name. -/
def ofName? : String → Option Template
  | "minimal" => some .minimal
  | "standard" => some .standard
  | "full" => some .full
  | _ => none

/-- The lines of the machine's name and address. -/
def identity (name ip : String) : List String :=
  ["name: " ++ name, "ip: \"" ++ ip ++ "\""]

def minimalLines (name ip : String) : List String :=
  identity name ip

def standardLines (name ip : String) : List String :=
  ["# Homestead machine settings", ""] ++
  identity name ip ++ [
    "memory: 2048",
    "cpus: 2",
    "provider: virtualbox",
    "",
    "# Public key installed into the guest's authorized_keys",
    "authorize: ~/.ssh/id_rsa.pub",
    "",
    "# Private keys copied into the guest",
    "keys:",
    "  - ~/.ssh/id_rsa",
    "",
    "# Host folders shared with the guest",
    "folders:",
    "  - map: ~/code",
    "    to: /home/vagrant/code",
    "",
    "# Sites served by the guest web server",
    "sites:",
    "  - map: homestead.test",
    "    to: /home/vagrant/code/public"]

def fullLines (name ip : String) : List String :=
  ["# Homestead machine settings", "# Full example with all fields documented", ""] ++
  identity name ip ++ [
    "box: ubuntu/bionic64",
    "version: \">= 2.0.0\"",
    "memory: 4096",
    "cpus: 2",
    "provider: virtualbox",
    "natdnshostresolver: on",
    "gui: false",
    "",
    "# Extra networks (private_network or public_network)",
    "# networks:",
    "#   - type: public_network",
    "#     ip: 192.168.10.20",
    "#     bridge: en1",
    "",
    "# Extra forwarded ports (send = host, to = guest)",
    "# default_ports: false disables the built-in forwards",
    "# ports:",
    "#   - send: 50000",
    "#     to: 5000",
    "#     protocol: udp",
    "",
    "authorize: ~/.ssh/id_rsa.pub",
    "",
    "keys:",
    "  - ~/.ssh/id_rsa",
    "",
    "# Files copied into the guest",
    "# copy:",
    "#   - from: ~/.bash_aliases",
    "#     to: /home/vagrant",
    "",
    "# Shared folders; type may be nfs, smb or rsync",
    "folders:",
    "  - map: ~/code",
    "    to: /home/vagrant/code",
    "#     type: nfs",
    "#     mount_options: [actimeo=1, nolock]",
    "",
    "sites:",
    "  - map: homestead.test",
    "    to: /home/vagrant/code/public",
    "#     type: apache",
    "#     port: 80",
    "#     ssl: 443",
    "#     schedule: true",
    "#     params:",
    "#       - key: APP_ENV",
    "#         value: local",
    "",
    "# Web server to configure (apache replaces nginx)",
    "# service: apache",
    "",
    "# Database systems to install",
    "# DBMS:",
    "#   - mysql",
    "#   - postgresql"]

/-- The text of a new settings file. -/
def render (template : Template) (name ip : String) : String :=
  let lines := match template with
    | .minimal => minimalLines name ip
    | .standard => standardLines name ip
    | .full => fullLines name ip
  String.join (lines.map (· ++ "\n"))

end Template

end Provision
