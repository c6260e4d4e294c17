import Provision.Plan.Basic
import Provision.Proofs.Plan.Keys
import Provision.Proofs.Settings.Filling

/-!
# The blocks of a plan

A plan is a list of blocks, one after the other, and each block has its directives in the order of
the entries they are for. `Blocks` is such a list with the kind of every directive in its type;
`Blocks.Of` says what settings require of each block, entry by entry. Every plan is the directives
of blocks as its settings require them, so its length is a sum over the settings.
-/

namespace Provision

open Attempt

/-! ## What blocks hold -/

/-- What is planned for a folder. -/
inductive FolderBlock
  /-- A script that says that the folder is missing. -/
  | missing (notice : Shell)
  | shared (folder : SyncedFolder) (bound : Option BindFolder)

/-- The directives of a plan, block by block. -/
structure Blocks where
  session : SshSession
  machine : Machine
  tuning : Tuning
  primaryNetwork : Network
  networks : List Network
  defaultForwards : List ForwardedPort
  forwards : List ForwardedPort
  authorized : Option Shell
  keys : List Shell
  copies : List Upload
  folders : List FolderBlock
  /-- The two scripts of each site. -/
  sites : List (Shell × Shell)
  /-- The two scripts of the primary service. -/
  service : Option (Shell × Shell)
  databases : List Shell

/-- Two scripts in a row. -/
def shellPair (pair : Shell × Shell) : List Directive :=
  [.shell pair.1, .shell pair.2]

/-- The directives for one folder. -/
def FolderBlock.directives : FolderBlock → List Directive
  | .missing notice => [.shell notice]
  | .shared folder bound => .syncedFolder folder :: bound.toList.map .bindFolder

/-- The blocks one after the other. -/
def Blocks.directives (b : Blocks) : List Directive :=
  [.ssh b.session, .machine b.machine, .provider b.tuning, .network b.primaryNetwork] ++
    b.networks.map .network ++ (b.defaultForwards ++ b.forwards).map .forwardedPort ++
    b.authorized.toList.map .shell ++ b.keys.map .shell ++ b.copies.map .file ++
    b.folders.flatMap FolderBlock.directives ++ b.sites.flatMap shellPair ++
    b.service.toList.flatMap shellPair ++ b.databases.map .shell

/-- What is planned for a folder, as a block. -/
def Folder.block (folder : Folder) (host : Host) (o : PlanOptions) : FolderBlock :=
  if host.hasEntry (host.expand folder.map o.base) then
    .shared ⟨folder.map, folder.guestPath, folder.kind, folder.plannedOptions⟩
      (if o.bindfs then some ⟨folder.guestPath, folder.guestPath⟩ else none)
  else .missing (.inline missingFolderScript)

/-- The directives for a folder are those of its block. -/
theorem Folder.plan_eq_directives (folder : Folder) (host : Host) (o : PlanOptions) :
    folder.plan host o = (folder.block host o).directives := by
  unfold plan block
  by_cases hthere : host.hasEntry (host.expand folder.map o.base) = true
  · rw [if_pos hthere, if_pos hthere]
    -- bindfs takes a second directive
    by_cases hbind : o.bindfs = true
    · rw [if_pos hbind, if_pos hbind]
      rfl
    · rw [if_neg hbind, if_neg hbind]
      rfl
  · rw [if_neg hthere, if_neg hthere]
    rfl

/-! ## What settings require of them -/

/-- The guest port a mapping is for, in either spelling. -/
def PortMapping.guestPort (mapping : PortMapping) : Option UInt16 :=
  mapping.guest.or mapping.formerGuest

/-- The host port a mapping is for, in either spelling. -/
def PortMapping.hostPort (mapping : PortMapping) : Option UInt16 :=
  mapping.host.or mapping.formerHost

/-- The forward a mapping asks for, in either spelling. -/
def PortMapping.forward (mapping : PortMapping) : ForwardedPort :=
  ⟨mapping.guestPort, mapping.hostPort, mapping.protocol.getD "tcp", true⟩

/-- The built-in forwards, without those for a guest port that the settings map themselves. -/
def Settings.keptDefaults (s : Settings) : List (UInt16 × UInt16) :=
  if s.defaultPorts = some false then []
  else [(80, 8000), (443, 44300), (3306, 33060), (5432, 54320), (8025, 8025),
    (27017, 27017)].filter fun forward =>
      s.ports.all fun mapping => mapping.guestPort != some forward.1

/-- The type of a site in the current spelling. -/
def Site.serverType (site : Site) : String :=
  if site.kind = some "symfony" then "symfony2" else site.kind.getD "apache"

/-- The name of a site's schedule: the ASCII letters and digits of its host name. -/
def Site.scheduleName (site : Site) : String :=
  String.ofList (site.map.toList.filter Char.isAlphanum)

/-- The script file of a service or a database system. -/
def systemFile (o : PlanOptions) (system file : String) : HostPath :=
  HostPath.join (HostPath.join (HostPath.join o.scripts.path "settings") system) file

/-- The database systems that have an install script. -/
def Settings.installable (s : Settings) (host : Host) (o : PlanOptions) : List String :=
  s.databases.filter fun system => host.hasFile (systemFile o system "install.sh")

/-- What is to be planned for a folder: a script that says in the guest that it is missing, or else
its mount, and the bind that goes with it. -/
inductive FolderBlock.Of (host : Host) (o : PlanOptions) (folder : Folder) : FolderBlock → Prop
  | missing (h : host.hasEntry (host.expand folder.map o.base) = false) :
      Of host o folder (.missing ⟨none, .inline (">&2 echo \"Unable to mount one of your folders. " ++
        "Please check your folders in Homestead.yaml\""), [], true⟩)
  | shared (h : host.hasEntry (host.expand folder.map o.base) = true) (options : Options) :
      Of host o folder (.shared ⟨folder.map, folder.guestPath, folder.kind, options⟩
        (if o.bindfs then some ⟨folder.guestPath, folder.guestPath⟩ else none))

/-- The two scripts of a site. The first one sets it up, with all that it needs to know, and the
second one installs its schedule or removes what an earlier run left of it. -/
structure Site.ScriptsOf (o : PlanOptions) (site : Site) (pair : Shell × Shell) : Prop where
  setup : pair.1 =
    { name := some ("Creating Site: " ++ site.map)
      source := .path (HostPath.join (HostPath.join o.scripts.path "servers")
        ("serve-" ++ site.serverType ++ ".sh"))
      args := [site.map, site.documentRoot.getD "", site.port.getD "80", site.ssl.getD "443",
        (site.params.map paramBlock).getD ""]
      privileged := true }
  schedule : pair.2 = match site.schedule with
    | some true =>
      { name := some "Creating Schedule"
        source := .path (HostPath.join o.scripts.path "cron-schedule.sh")
        args := [site.scheduleName, site.documentRoot.getD ""]
        privileged := true }
    | some false =>
      { name := some "Creating Schedule"
        source := .inline "rm -f /etc/cron.d/$1"
        args := [site.scheduleName]
        privileged := true }
    | none =>
      { name := some "Checking for old Schedule"
        source := .inline "rm -f /etc/cron.d/$1"
        args := [site.scheduleName]
        privileged := true }

/-- The blocks that settings require. A block for a list of entries has one part for each entry, in
the order of the list. -/
structure Blocks.Of (s : Settings) (host : Host) (o : PlanOptions) (b : Blocks) : Prop where
  session : b.session = ⟨"bash -c 'BASH_ENV=/etc/profile exec bash'", true⟩
  machine : b.machine =
    ⟨s.name.getD "vagrant-name", s.box.getD "ubuntu/bionic64", s.version.getD ">= 2.0.0"⟩
  tuning : b.tuning =
    { provider := "virtualbox"
      name := s.name.getD "vagrant-name"
      customizations := [("--memory", s.memory.getD "2048"), ("--cpus", s.cpus.getD "1"),
        ("--natdnsproxy1", "on"), ("--natdnshostresolver1", s.natdnshostresolver.getD "on"),
        ("--ostype", "Ubuntu_64")]
      gui := s.gui.getD false }
  primaryNetwork : b.primaryNetwork =
    ⟨some "private_network", some (s.ip.getD "192.168.15.10"), none⟩
  networks : b.networks = s.networks
  defaultForwards : b.defaultForwards = s.keptDefaults.map fun forward =>
    ⟨some forward.1, some forward.2, "tcp", true⟩
  forwards : b.forwards = s.ports.map PortMapping.forward
  /-- There is a script for the public key exactly when it is a regular file. -/
  authorized : b.authorized.isSome =
    s.authorize.any fun raw => host.hasFile (host.expand raw o.base)
  /-- The script has the text of that file as its one argument, and is run by root. -/
  authorizedKey : ∀ shell ∈ b.authorized, ∃ raw key, s.authorize = some raw ∧
    host.entryAt? (host.expand raw o.base) = some (.file (some key)) ∧
    shell =
      { name := none
        source := .inline ("echo $1 | grep -xq \"$1\" /home/vagrant/.ssh/authorized_keys || " ++
          "echo \"\n$1\" | tee -a /home/vagrant/.ssh/authorized_keys")
        args := [key]
        privileged := true }
  /-- A script for a private key has its text and its name as arguments, and is run by the login
  user. -/
  keys : List.Forall₂ (fun raw shell => ∃ key,
    host.entryAt? (host.expand raw o.base) = some (.file (some key)) ∧
    shell =
      { name := none
        source := .inline "echo \"$1\" > /home/vagrant/.ssh/$2 && chmod 600 /home/vagrant/.ssh/$2"
        args := [key, HostPath.writtenName raw]
        privileged := false }) (s.keys.getD []) b.keys
  copies : b.copies = s.copies.map fun copy =>
    ⟨host.expand copy.source o.base, copy.destination⟩
  folders : List.Forall₂ (FolderBlock.Of host o) s.folders b.folders
  sites : List.Forall₂ (Site.ScriptsOf o) s.sites b.sites
  service : b.service = if s.service = some "apache" then
    some (⟨none, .path (systemFile o "nginx" "clear-site.sh"), [], true⟩,
      ⟨none, .path (systemFile o "apache" "install.sh"), [], true⟩) else none
  databases : b.databases = (s.installable host o).map fun system =>
    ⟨none, .path (systemFile o system "install.sh"), [], true⟩

/-! ## Sites are planned as they are normalized -/

namespace Site

variable (site : Site) (o : PlanOptions)

/-- The setup of a site falls back to the same values as normalizing. -/
theorem planSetup_normalized : site.normalized.planSetup o = site.planSetup o := by
  have hkind : canonicalSiteType ((some (canonicalSiteType (site.kind.getD defaultSiteType))).getD
      defaultSiteType) = canonicalSiteType (site.kind.getD defaultSiteType) := by
    rw [Option.getD_some, canonicalSiteType_canonicalSiteType]
  unfold planSetup normalized
  dsimp only
  rw [hkind, Option.or_some, Option.or_some, Option.getD_some, Option.getD_some]

theorem planSchedule_normalized : site.normalized.planSchedule o = site.planSchedule o := rfl

end Site

/-! ## The blocks of each list -/

/-- A list whose entries each give the directives of one part of a block gives the block. -/
theorem exists_parts {α β : Type} {R : α → β → Prop} {f : α → List Directive}
    {g : β → List Directive} (h : ∀ a, ∃ b, f a = g b ∧ R a b) (as : List α) :
    ∃ bs, as.flatMap f = bs.flatMap g ∧ List.Forall₂ R as bs := by
  induction as with
  | nil => exact ⟨[], rfl, .nil⟩
  | cons a as ih =>
    obtain ⟨b, hb, hR⟩ := h a
    obtain ⟨bs, hbs, hall⟩ := ih
    refine ⟨b :: bs, ?_, .cons hR hall⟩
    rw [List.flatMap_cons, List.flatMap_cons, hb, hbs]

namespace Settings

variable {s : Settings} {host : Host} {o : PlanOptions}

/-- In normalized settings the built-in forwards that stay are those that no mapping replaces. -/
theorem keptForwards_normalized (s : Settings) : s.normalized.keptForwards = s.keptDefaults := by
  show (if s.defaultPorts = some false then [] else _) = if s.defaultPorts = some false then [] else _
  refine if_congr Iff.rfl rfl (List.filter_congr fun forward _ => ?_)
  show (!(s.ports.map PortMapping.normalized).any fun mapping => mapping.guest == some forward.1) = _
  rw [List.any_map, List.not_any_eq_all_not]
  rfl

/-- A normalized mapping is forwarded by its guest and host port in either spelling. -/
theorem forwardOf_normalized (mapping : PortMapping) :
    forwardOf mapping.normalized = mapping.forward := by
  have hprotocol : (mapping.protocol.or (some defaultProtocol)).getD defaultProtocol =
      mapping.protocol.getD defaultProtocol := by
    rcases mapping.protocol with _ | protocol <;> rfl
  exact congrArg (ForwardedPort.mk _ _ · true) hprotocol

/-- The built-in forwards come before those of the mappings. -/
theorem planForwards_normalized (s : Settings) : s.normalized.planForwards =
    ((s.keptDefaults.map fun forward => ForwardedPort.tcp forward.1 forward.2) ++
      s.ports.map PortMapping.forward).map .forwardedPort := by
  rw [planForwards, keptForwards_normalized, List.map_append, List.map_map, List.map_map]
  show _ ++ (s.ports.map PortMapping.normalized).map _ = _
  rw [List.map_map]
  refine congrArg₂ _ rfl (List.map_congr_left fun mapping _ => ?_)
  exact congrArg Directive.forwardedPort (forwardOf_normalized mapping)

/-- The machine of a plan is the one of the settings, or else the built-in one. -/
theorem exists_machineBlock (s : Settings) : ∃ machine,
    s.normalized.planMachine = .machine machine ∧ machine =
      ⟨s.name.getD "vagrant-name", s.box.getD "ubuntu/bionic64", s.version.getD ">= 2.0.0"⟩ := by
  refine ⟨_, rfl, ?_⟩
  unfold normalized normalizedWith
  simp only [Option.or_some, Option.getD_some]

/-- So are its name, memory, processors and resolver for the provider. -/
theorem exists_tuningBlock (s : Settings) : ∃ tuning,
    s.normalized.planProvider = .provider tuning ∧ tuning =
      { provider := "virtualbox"
        name := s.name.getD "vagrant-name"
        customizations := [("--memory", s.memory.getD "2048"), ("--cpus", s.cpus.getD "1"),
          ("--natdnsproxy1", "on"), ("--natdnshostresolver1", s.natdnshostresolver.getD "on"),
          ("--ostype", "Ubuntu_64")]
        gui := s.gui.getD false } := by
  refine ⟨_, rfl, ?_⟩
  unfold normalized normalizedWith
  simp only [Option.or_some, Option.getD_some]
  rfl

/-- The machine always has an address of its own. -/
theorem exists_networkBlock (s : Settings) : ∃ network,
    s.normalized.planPrimaryNetwork = .network network ∧
      network = ⟨some "private_network", some (s.ip.getD "192.168.15.10"), none⟩ := by
  refine ⟨_, rfl, ?_⟩
  unfold normalized normalizedWith
  simp only [Option.or_some]
  rfl

/-- The script for the public key, if there is one. -/
theorem exists_authorized {planned : List Directive} (h : s.planAuthorizedKey host o = .ok planned) :
    ∃ authorized : Option Shell, planned = authorized.toList.map .shell ∧
      authorized.isSome = s.authorize.any (fun raw => host.hasFile (host.expand raw o.base)) ∧
      ∀ shell ∈ authorized, ∃ raw key, s.authorize = some raw ∧
        host.entryAt? (host.expand raw o.base) = some (.file (some key)) ∧
        shell = authorizeShell key := by
  by_cases hnone : ∀ raw ∈ s.authorize, host.hasFile (host.expand raw o.base) = false
  · rw [planAuthorizedKey_of_forall_not hnone] at h
    refine ⟨none, (Except.ok.inj h).symm, ?_, nofun⟩
    -- either no key is named, or the one that is named is no file
    rcases hset : s.authorize with _ | raw
    · rfl
    · exact (hnone raw hset).symm
  · push Not at hnone
    obtain ⟨raw, hset, hfile⟩ := hnone
    replace hfile := Bool.eq_true_of_not_eq_false hfile
    rw [planAuthorizedKey_of_hasFile hset hfile, bind_eq_ok_iff] at h
    obtain ⟨key, hkey, hplanned⟩ := h
    rw [Host.mapError_readText_eq_ok_iff hfile] at hkey
    refine ⟨some (authorizeShell key), (Except.ok.inj hplanned).symm, ?_, ?_⟩
    · rw [hset]
      exact hfile.symm
    · intro shell hshell
      cases hshell
      exact ⟨raw, key, hset, hkey, rfl⟩

/-- The scripts for the private keys, one for each. -/
theorem exists_keys {planned : List Directive} (h : s.planPrivateKeys host o = .ok planned) :
    ∃ shells : List Shell, planned = shells.map .shell ∧ List.Forall₂ (fun raw shell => ∃ key,
      host.entryAt? (host.expand raw o.base) = some (.file (some key)) ∧ shell = keyShell raw key)
      (s.keys.getD []) shells := by
  obtain ⟨-, hall⟩ := planPrivateKeys_eq_ok_iff.mp h
  clear h
  generalize s.keys.getD [] = keys at hall ⊢
  induction hall with
  | nil => exact ⟨[], rfl, .nil⟩
  | cons hhead _ ih =>
    obtain ⟨key, hentry, rfl⟩ := hhead
    obtain ⟨shells, rfl, hshells⟩ := ih
    exact ⟨_ :: shells, rfl, .cons ⟨key, hentry, rfl⟩ hshells⟩

/-- A folder is mounted or reported missing, and then nothing else is planned for it. -/
theorem exists_folder (host : Host) (o : PlanOptions) (folder : Folder) :
    ∃ block : FolderBlock, folder.plan host o = block.directives ∧ block.Of host o folder := by
  refine ⟨folder.block host o, folder.plan_eq_directives host o, ?_⟩
  unfold Folder.block
  by_cases hthere : host.hasEntry (host.expand folder.map o.base) = true
  · rw [if_pos hthere]
    exact .shared hthere folder.plannedOptions
  · rw [if_neg hthere]
    exact .missing (Bool.eq_false_of_not_eq_true hthere)

/-- Every site has its two scripts: what normalizing fills in, they would fall back to. -/
theorem exists_site (o : PlanOptions) (site : Site) : ∃ pair,
    [site.normalized.planSetup o, site.normalized.planSchedule o] = shellPair pair ∧
      site.ScriptsOf o pair := by
  have hkind : canonicalSiteType (site.kind.getD defaultSiteType) = site.serverType :=
    Option.some.inj site.filledFrom_normalized.kind
  rw [site.planSetup_normalized, site.planSchedule_normalized]
  unfold Site.planSetup Site.planSchedule
  rw [hkind]
  -- the second script depends on whether there is a schedule, none, or no word about one
  rcases hschedule : site.schedule with _ | _ | _
  all_goals
    refine ⟨(_, _), rfl, rfl, ?_⟩
    rw [hschedule]
    rfl

/-- Apache is the only primary service with scripts of its own. -/
theorem planPrimaryService_eq (s : Settings) (o : PlanOptions) : s.planPrimaryService o =
    (if s.service = some "apache" then
      some (Shell.script (systemFile o "nginx" "clear-site.sh"),
        Shell.script (systemFile o "apache" "install.sh")) else none).toList.flatMap shellPair := by
  unfold planPrimaryService
  rcases hservice : s.service with _ | service
  · rfl
  · dsimp only
    by_cases hapache : service = "apache"
    · subst hapache
      rfl
    · -- no other service has scripts of its own
      rw [if_neg fun h => hapache (Option.some.inj h)]
      have hlookup : primaryServices.lookup service = none := by
        rw [primaryServices, List.lookup_cons, beq_eq_false_iff_ne.mpr hapache]
        rfl
      rw [hlookup]
      rfl

/-- Database systems without an install script are passed over. -/
theorem planDatabases_eq (s : Settings) (host : Host) (o : PlanOptions) : s.planDatabases host o =
    ((s.installable host o).map fun system => Shell.script (systemFile o system "install.sh")).map
      .shell := by
  unfold planDatabases installable
  rw [List.filter_map, List.map_map, List.map_map]
  rfl

theorem planCopies_normalized (s : Settings) (host : Host) (o : PlanOptions) :
    s.normalized.planCopies host o = (s.copies.map fun copy =>
      Upload.mk (host.expand copy.source o.base) copy.destination).map .file := by
  rw [List.map_map]
  rfl

theorem exists_folders (s : Settings) (host : Host) (o : PlanOptions) :
    ∃ blocks, s.normalized.planFolders host o = blocks.flatMap FolderBlock.directives ∧
      List.Forall₂ (FolderBlock.Of host o) s.folders blocks :=
  exists_parts (exists_folder host o) s.folders

theorem exists_sites (s : Settings) (o : PlanOptions) :
    ∃ pairs, s.normalized.planSites o = pairs.flatMap shellPair ∧
      List.Forall₂ (Site.ScriptsOf o) s.sites pairs := by
  obtain ⟨pairs, hpairs, hall⟩ := exists_parts (exists_site o) s.sites
  refine ⟨pairs, ?_, hall⟩
  rw [← hpairs]
  exact List.flatMap_map ..

/-- A plan consists of the blocks its settings require. -/
theorem exists_blocks {plan : Plan} (h : s.plan host o = .ok plan) :
    ∃ b : Blocks, plan.directives = b.directives ∧ b.Of s host o := by
  obtain ⟨authorized, hauthorized, h⟩ := bind_eq_ok_iff.mp h
  obtain ⟨keys, hkeys, ⟨⟩⟩ := bind_eq_ok_iff.mp h
  obtain ⟨shell, rfl, hshell, hkey⟩ := exists_authorized hauthorized
  obtain ⟨shells, rfl, hshells⟩ := exists_keys hkeys
  obtain ⟨folders, hfolders, hfoldersOf⟩ := exists_folders s host o
  obtain ⟨sites, hsites, hsitesOf⟩ := exists_sites s o
  obtain ⟨machine, hmachine, hsaid⟩ := s.exists_machineBlock
  obtain ⟨tuning, htuning, htuned⟩ := s.exists_tuningBlock
  obtain ⟨network, hnetwork, haddress⟩ := s.exists_networkBlock
  refine ⟨{
    session := ⟨sshShell, true⟩
    machine := machine
    tuning := tuning
    primaryNetwork := network
    networks := s.networks
    defaultForwards := s.keptDefaults.map fun forward => .tcp forward.1 forward.2
    forwards := s.ports.map PortMapping.forward
    authorized := shell
    keys := shells
    copies := s.copies.map fun copy => ⟨host.expand copy.source o.base, copy.destination⟩
    folders := folders
    sites := sites
    service := if s.service = some "apache" then
      some (.script (systemFile o "nginx" "clear-site.sh"),
        .script (systemFile o "apache" "install.sh")) else none
    databases := (s.installable host o).map fun system =>
      .script (systemFile o system "install.sh") }, ?_,
    ⟨rfl, hsaid, htuned, haddress, rfl, rfl, rfl, hshell, hkey, hshells, rfl, hfoldersOf, hsitesOf,
      rfl, rfl⟩⟩
  -- normalizing touches the entries of lists, but neither their number nor their order
  show [planSsh, s.normalized.planMachine, s.normalized.planProvider,
    s.normalized.planPrimaryNetwork] ++ s.networks.map .network ++ s.normalized.planForwards ++ _ ++
    _ ++ s.normalized.planCopies host o ++ s.normalized.planFolders host o ++
    s.normalized.planSites o ++ s.normalized.planPrimaryService o ++
    s.normalized.planDatabases host o = _
  rw [hmachine, htuning, hnetwork, planForwards_normalized, planCopies_normalized, hfolders, hsites,
    planPrimaryService_eq, planDatabases_eq]
  rfl

end Settings

/-! ## The length of a plan -/

theorem length_flatMap_shellPair (pairs : List (Shell × Shell)) :
    (pairs.flatMap shellPair).length = 2 * pairs.length := by
  induction pairs with
  | nil => rfl
  | cons pair pairs ih =>
    rw [List.flatMap_cons, List.length_append, ih, List.length_cons]
    show 2 + 2 * pairs.length = _
    omega

section

variable {s : Settings} {host : Host} {o : PlanOptions}

/-- A missing folder has one directive; one that is there has two with bindfs. -/
theorem FolderBlock.Of.length_directives {folder : Folder} {block : FolderBlock}
    (h : block.Of host o folder) : block.directives.length =
      if host.hasEntry (host.expand folder.map o.base) then 1 + o.bindfs.toNat else 1 := by
  rcases h with hmissing | ⟨hthere, options⟩
  · rw [hmissing]
    rfl
  · rw [if_pos hthere]
    by_cases hbind : o.bindfs = true
    · rw [hbind]
      rfl
    · rw [Bool.eq_false_of_not_eq_true hbind]
      rfl

/-- A missing folder has one directive, and one that is there has one or two. -/
theorem length_flatMap_folders {folders : List Folder} {blocks : List FolderBlock}
    (h : List.Forall₂ (FolderBlock.Of host o) folders blocks) :
    (blocks.flatMap FolderBlock.directives).length =
      folders.countP (fun folder => !host.hasEntry (host.expand folder.map o.base)) +
        (1 + o.bindfs.toNat) *
          folders.countP (fun folder => host.hasEntry (host.expand folder.map o.base)) := by
  induction h with
  | nil => rfl
  | @cons folder block folders blocks hhead _ ih =>
    rw [List.flatMap_cons, List.length_append, ih, hhead.length_directives, List.countP_cons,
      List.countP_cons]
    by_cases hthere : host.hasEntry (host.expand folder.map o.base) = true
    · rw [hthere]
      simp only [Bool.not_true, Bool.false_eq_true, if_true, if_false, Nat.mul_add]
      omega
    · rw [Bool.eq_false_of_not_eq_true hthere]
      simp only [Bool.not_false, Bool.false_eq_true, if_true, if_false, Nat.add_zero]
      omega

/-- The number of directives in blocks, from the settings that require them. -/
theorem Blocks.Of.length_directives {b : Blocks} (h : b.Of s host o) : b.directives.length =
    4 + s.networks.length + s.keptDefaults.length + s.ports.length +
      (s.authorize.any fun raw => host.hasFile (host.expand raw o.base)).toNat +
      (s.keys.getD []).length + s.copies.length +
      s.folders.countP (fun folder => !host.hasEntry (host.expand folder.map o.base)) +
      (1 + o.bindfs.toNat) *
        s.folders.countP (fun folder => host.hasEntry (host.expand folder.map o.base)) +
      2 * s.sites.length + (if s.service = some "apache" then 2 else 0) +
      (s.installable host o).length := by
  have hauthorized : b.authorized.toList.length =
      (s.authorize.any fun raw => host.hasFile (host.expand raw o.base)).toNat := by
    rw [← h.authorized]
    rcases b.authorized with _ | shell <;> rfl
  have hservice : b.service.toList.length * 2 = if s.service = some "apache" then 2 else 0 := by
    rw [h.service]
    split <;> rfl
  simp only [directives, List.length_append, List.length_map, List.length_cons, List.length_nil,
    length_flatMap_shellPair, length_flatMap_folders h.folders]
  rw [h.networks, h.defaultForwards, h.forwards, h.copies, h.databases, hauthorized,
    ← h.keys.length_eq, ← h.sites.length_eq]
  simp only [List.length_map]
  omega

end

/-- A plan consists exactly of the blocks its settings require, and has one directive for each
entry of each list, two for a site, and one or two for a folder. -/
theorem Settings.directives_eq_blocks (s : Settings) (host : Host) (o : PlanOptions) (plan : Plan)
    (h : s.plan host o = .ok plan) :
    (∃ b : Blocks, plan.directives = b.directives ∧ b.Of s host o) ∧
      plan.directives.length =
        4 + s.networks.length + s.keptDefaults.length + s.ports.length +
          (s.authorize.any fun raw => host.hasFile (host.expand raw o.base)).toNat +
          (s.keys.getD []).length + s.copies.length +
          s.folders.countP (fun folder => !host.hasEntry (host.expand folder.map o.base)) +
          (1 + o.bindfs.toNat) *
            s.folders.countP (fun folder => host.hasEntry (host.expand folder.map o.base)) +
          2 * s.sites.length + (if s.service = some "apache" then 2 else 0) +
          (s.installable host o).length := by
  obtain ⟨b, hb, hof⟩ := exists_blocks h
  refine ⟨⟨b, hb, hof⟩, ?_⟩
  rw [hb]
  exact hof.length_directives

/-- A host with a scripts directory, a public and a private key, and a folder. -/
def Host.furnished : Host where
  disk := ⟨[(["p"], .directory), (["p", "id.pub"], .file (some "ssh-rsa AAAA")),
    (["p", "id"], .file (some "PRIVATE")), (["p", "code"], .directory),
    (["p", "scripts"], .directory), (["p", "scripts", "settings"], .directory),
    (["p", "scripts", "settings", "mysql"], .directory),
    (["p", "scripts", "settings", "mysql", "install.sh"], .file (some ""))]⟩
  home := "/home"
  workingDirectory := []
  pwd := none

/-- Settings with an entry for every block; a folder and a database system are not on the host. -/
def Settings.varied : Settings :=
  { Settings.blank with
    networks := [⟨some "public_network", some "192.168.1.40", none⟩]
    ports := [⟨none, none, some 80, some 8080, none⟩]
    authorize := some "id.pub"
    keys := some ["id", "id"]
    copies := [⟨"id.pub", "/home/vagrant/"⟩]
    folders := [⟨"gone", "/gone", none, [], none⟩, ⟨"code", "/code", none, [], none⟩]
    sites := [⟨"a.test", some "/srv/a", none, none, none, none, some true⟩]
    service := some "apache"
    databases := ["mysql", "cassandra"] }

/-- With an entry for every block the plan has all kinds of directives, 23 of them. -/
theorem Settings.directives_varied : ∃ plan,
    varied.plan Host.furnished ⟨"/p", ⟨"/p/scripts"⟩, true⟩ = .ok plan ∧
      (∃ b : Blocks, plan.directives = b.directives ∧
        b.Of varied Host.furnished ⟨"/p", ⟨"/p/scripts"⟩, true⟩) ∧
      plan.directives.length = 23 := by
  have hplan : (varied.plan Host.furnished ⟨"/p", ⟨"/p/scripts"⟩, true⟩).isOk = true := by
    decide +kernel
  rcases h : varied.plan Host.furnished ⟨"/p", ⟨"/p/scripts"⟩, true⟩ with e | plan
  · rw [h] at hplan
    cases hplan
  · obtain ⟨hblocks, hlength⟩ := directives_eq_blocks _ _ _ plan h
    exact ⟨plan, rfl, hblocks, hlength.trans (by decide +kernel)⟩

end Provision
