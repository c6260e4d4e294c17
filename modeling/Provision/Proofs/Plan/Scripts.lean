import Provision.Proofs.Host.Component
import Provision.Proofs.Plan.Blocks

/-!
# The scripts of a plan

Which script files a plan runs. Up to the sites every script is given by its text; the sites, the
primary service and the database systems have script files. All of these start with the scripts
root, with one exception: a database system that is written as an absolute path stands for itself
when it is joined to the root, and the script is the one in that directory.
-/

namespace Provision

open Attempt HostPath

/-! ## Where the scripts are -/

namespace ScriptsRoot

variable (root : ScriptsRoot)

/-- Whether a path starts with the scripts root, component by component. -/
def Holds (path : HostPath) : Prop :=
  StartsWith path root.path

instance (path : HostPath) : Decidable (root.Holds path) :=
  inferInstanceAs (Decidable (StartsWith path root.path))

theorem components_cronSchedule :
    components root.cronSchedule = components root.path ++ ["cron-schedule.sh".toList] :=
  components_join_name root.path (by decide)

theorem holds_cronSchedule : root.Holds root.cronSchedule :=
  startsWith_join root.path rfl

/-- The type of a site ends up behind the start of a file name, so no type is an absolute path. -/
theorem startsWith_siteScript (kind : String) :
    StartsWith (root.siteScript kind) (join root.path "servers") := by
  apply startsWith_join
  unfold isAbsolute
  rw [String.toList_append, String.toList_append]
  rfl

theorem holds_siteScript (kind : String) : root.Holds (root.siteScript kind) :=
  List.IsPrefix.trans (startsWith_join root.path rfl) (root.startsWith_siteScript kind)

/-- The scripts of a system start with the root unless the system is an absolute path. -/
theorem holds_systemScript {system script : String} (hsystem : isAbsolute system = false)
    (hscript : isAbsolute script = false) : root.Holds (root.systemScript system script) := by
  have hsettings : StartsWith (join root.path "settings") root.path := startsWith_join _ rfl
  have hdirectory := startsWith_join (join root.path "settings") hsystem
  have hfile := startsWith_join (join (join root.path "settings") system) hscript
  exact List.IsPrefix.trans hsettings (List.IsPrefix.trans hdirectory hfile)

/-- The root has no part in the install script of a system that is an absolute path. -/
theorem installScript_of_isAbsolute {system : String} (h : isAbsolute system = true) :
    root.installScript system = join system "install.sh" := by
  unfold installScript systemScript
  rw [join_of_isAbsolute _ h]

/-- No other script is the one for schedules: the scripts of sites are in a directory of their own,
and those of systems have other names. -/
theorem components_siteScript_ne (kind : String) :
    components (root.siteScript kind) ≠ components root.cronSchedule := by
  intro h
  have hservers := root.startsWith_siteScript kind
  unfold StartsWith at hservers
  rw [h, components_join_name root.path (by decide), components_cronSchedule,
    List.prefix_append_right_inj] at hservers
  revert hservers
  decide

/-- The script of a system is never the one for schedules unless it has its name. -/
theorem components_systemScript_ne {system script : String} (hscript : IsName script)
    (hne : script ≠ "cron-schedule.sh") :
    components (root.systemScript system script) ≠ components root.cronSchedule := by
  intro h
  unfold systemScript at h
  rw [components_join_name _ hscript, components_cronSchedule] at h
  have hlast := (List.append_inj' h rfl).2
  exact hne (String.toList_injective (List.cons.inj hlast).1)

theorem components_installScript_ne (system : String) :
    components (root.installScript system) ≠ components root.cronSchedule :=
  root.components_systemScript_ne (by decide) (by decide)

theorem components_clearSiteScript_ne (system : String) :
    components (root.clearSiteScript system) ≠ components root.cronSchedule :=
  root.components_systemScript_ne (by decide) (by decide)

end ScriptsRoot

/-! ## The directives around the sites -/

/-- The scripts about keys and folders, which are given by their texts. -/
def inlineScripts : List String :=
  [Settings.authorizeKeyScript, Settings.privateKeyScript, missingFolderScript]

/-- Whether a directive runs no script but those about keys and folders. -/
def Directive.RunsInline (d : Directive) : Prop :=
  ∀ shell, d = .shell shell → ∃ body ∈ inlineScripts, shell.source = .inline body

namespace Settings

variable {s : Settings} {host : Host} {o : PlanOptions} {plan : Plan} {d : Directive}

/-- The public key is authorized by a script given as text. -/
theorem runsInline_planAuthorizedKey {planned : List Directive}
    (h : s.planAuthorizedKey host o = .ok planned) (hd : d ∈ planned) : d.RunsInline := by
  obtain ⟨authorized, rfl, -, hkey⟩ := exists_authorized h
  obtain ⟨shell, hshell, rfl⟩ := List.mem_map.mp hd
  obtain ⟨_, key, -, -, rfl⟩ := hkey shell (Option.mem_toList.mp hshell)
  rintro _ ⟨⟩
  exact ⟨authorizeKeyScript, by simp [inlineScripts], rfl⟩

/-- Private keys are copied by a script given as text. -/
theorem runsInline_planPrivateKeys {planned : List Directive}
    (h : s.planPrivateKeys host o = .ok planned) (hd : d ∈ planned) : d.RunsInline := by
  obtain ⟨-, hall⟩ := planPrivateKeys_eq_ok_iff.mp h
  clear h
  generalize s.keys.getD [] = keys at hall
  induction hall with
  | nil => cases hd
  | cons hhead _ ih =>
    rcases List.mem_cons.mp hd with rfl | hd
    · obtain ⟨key, -, rfl⟩ := hhead
      rintro _ ⟨⟩
      exact ⟨privateKeyScript, by simp [inlineScripts], rfl⟩
    · exact ih hd

/-- A folder is mounted without a script; only the notice of a missing one is a script. -/
theorem runsInline_planFolders (hd : d ∈ s.planFolders host o) : d.RunsInline := by
  obtain ⟨folder, -, hd⟩ := List.mem_flatMap.mp hd
  rintro shell rfl
  unfold Folder.plan at hd
  split at hd
  · -- a folder that is there runs no script
    split at hd <;> simp at hd
  · obtain rfl : shell = .inline missingFolderScript := by simpa using hd
    exact ⟨missingFolderScript, by simp [inlineScripts], rfl⟩

/-- A plan has the sites in its middle. Before them no directive runs a script file, and after them
come the primary service and the database systems. -/
theorem exists_directives (h : s.plan host o = .ok plan) : ∃ before,
    plan.directives = before ++ s.normalized.planSites o ++
      (s.planPrimaryService o ++ s.planDatabases host o) ∧ ∀ d ∈ before, d.RunsInline := by
  obtain ⟨authorized, hauthorized, h⟩ := bind_eq_ok_iff.mp h
  obtain ⟨keys, hkeys, ⟨⟩⟩ := bind_eq_ok_iff.mp h
  refine ⟨_, List.append_assoc _ _ _, ?_⟩
  intro d hd
  simp only [List.mem_append] at hd
  rcases hd with (((((hmachine | hnetwork) | hforward) | hauthorize) | hkey) | hcopy) | hfolder
  · -- the machine takes four directives, none of them a script
    simp only [List.mem_cons, List.not_mem_nil, or_false] at hmachine
    rcases hmachine with rfl | rfl | rfl | rfl
    · exact nofun
    · exact nofun
    · exact nofun
    · exact nofun
  · obtain ⟨_, -, rfl⟩ := List.mem_map.mp hnetwork
    exact nofun
  · rw [planForwards_normalized] at hforward
    obtain ⟨_, -, rfl⟩ := List.mem_map.mp hforward
    exact nofun
  · exact runsInline_planAuthorizedKey hauthorized hauthorize
  · exact runsInline_planPrivateKeys hkeys hkey
  · obtain ⟨_, -, rfl⟩ := List.mem_map.mp hcopy
    exact nofun
  · exact runsInline_planFolders hfolder

/-- The primary service removes the sites of another server before it is installed. -/
theorem eq_of_mem_planPrimaryService (hd : d ∈ s.planPrimaryService o) :
    d = .shell (.script (o.scripts.clearSiteScript "nginx")) ∨
      d = .shell (.script (o.scripts.installScript "apache")) := by
  rw [planPrimaryService_eq] at hd
  split at hd
  · simpa [shellPair, systemFile, ScriptsRoot.clearSiteScript, ScriptsRoot.installScript,
      ScriptsRoot.systemScript] using hd
  · cases hd

/-- The database systems that have an install script are installed. -/
theorem mem_planDatabases_iff : d ∈ s.planDatabases host o ↔ ∃ system ∈ s.databases,
    host.hasFile (o.scripts.installScript system) = true ∧
      d = .shell (.script (o.scripts.installScript system)) := by
  rw [planDatabases_eq, List.map_map, List.mem_map]
  constructor
  · rintro ⟨system, hsystem, rfl⟩
    obtain ⟨hmem, hfile⟩ := List.mem_filter.mp hsystem
    exact ⟨system, hmem, hfile, rfl⟩
  · rintro ⟨system, hmem, hfile, rfl⟩
    exact ⟨system, List.mem_filter.mpr ⟨hmem, hfile⟩, rfl⟩

end Settings

/-! ## The script files of a plan -/

/-- The script file that a directive runs. -/
def Directive.script? : Directive → Option HostPath
  | .shell ⟨_, .path path, _, _⟩ => some path
  | _ => none

/-- The script files that a plan runs, in order. -/
def Plan.scripts (plan : Plan) : List HostPath :=
  plan.directives.filterMap Directive.script?

/-- A directive runs a script file exactly if it is a script whose source is that path. -/
theorem Directive.script?_eq_some_iff {d : Directive} {path : HostPath} :
    d.script? = some path ↔ ∃ shell, d = .shell shell ∧ shell.source = .path path := by
  constructor
  · intro h
    unfold script? at h
    split at h
    · next name found args privileged =>
      cases h
      exact ⟨_, rfl, rfl⟩
    · cases h
  · rintro ⟨⟨name, source, args, privileged⟩, rfl, rfl⟩
    rfl

/-- Scripts given as texts are no script files. -/
theorem Directive.RunsInline.script?_eq_none {d : Directive} (h : d.RunsInline) : d.script? = none := by
  by_contra hne
  obtain ⟨path, hpath⟩ := Option.ne_none_iff_exists'.mp hne
  obtain ⟨shell, hshell, hsource⟩ := script?_eq_some_iff.mp hpath
  obtain ⟨body, -, hbody⟩ := h shell hshell
  rw [hsource] at hbody
  cases hbody

namespace Settings

variable {s : Settings} {host : Host} {o : PlanOptions} {plan : Plan} {d : Directive}
  {path : HostPath}

/-- Sites run their server scripts and the one for schedules. -/
theorem holds_script_of_mem_planSites (hd : d ∈ s.planSites o) (hpath : d.script? = some path) :
    o.scripts.Holds path := by
  obtain ⟨site, -, hd⟩ := List.mem_flatMap.mp hd
  simp only [List.mem_cons, List.not_mem_nil, or_false] at hd
  rcases hd with rfl | rfl
  · cases hpath
    exact o.scripts.holds_siteScript _
  · unfold Site.planSchedule at hpath
    split at hpath
    · cases hpath
      exact o.scripts.holds_cronSchedule
    · cases hpath
    · cases hpath

/-- The scripts of the primary service are below the root. -/
theorem holds_script_of_mem_planPrimaryService (hd : d ∈ s.planPrimaryService o)
    (hpath : d.script? = some path) : o.scripts.Holds path := by
  rcases eq_of_mem_planPrimaryService hd with rfl | rfl
  · cases hpath
    exact o.scripts.holds_systemScript rfl rfl
  · cases hpath
    exact o.scripts.holds_systemScript rfl rfl

/-- A script of a plan starts with the root, or is the install script of a database system that is
an absolute path. -/
theorem holds_or_exists_database (h : s.plan host o = .ok plan) (hpath : path ∈ plan.scripts) :
    o.scripts.Holds path ∨ ∃ system ∈ s.databases, isAbsolute system = true ∧
      host.hasFile path = true ∧ path = join system "install.sh" := by
  obtain ⟨before, hdirectives, hbefore⟩ := exists_directives h
  obtain ⟨d, hd, hscript⟩ := List.mem_filterMap.mp hpath
  rw [hdirectives] at hd
  simp only [List.mem_append] at hd
  rcases hd with (hd | hd) | hd | hd
  · rw [(hbefore d hd).script?_eq_none] at hscript
    cases hscript
  · exact .inl (holds_script_of_mem_planSites hd hscript)
  · exact .inl (holds_script_of_mem_planPrimaryService hd hscript)
  · obtain ⟨system, hsystem, hfile, rfl⟩ := mem_planDatabases_iff.mp hd
    cases hscript
    by_cases habsolute : isAbsolute system = true
    · exact .inr ⟨system, hsystem, habsolute, hfile,
        o.scripts.installScript_of_isAbsolute habsolute⟩
    · exact .inl (o.scripts.holds_systemScript (Bool.eq_false_of_not_eq_true habsolute) rfl)

/-- A database system with an install script runs it. -/
theorem mem_scripts_of_mem_databases (h : s.plan host o = .ok plan) (system : String)
    (hsystem : system ∈ s.databases)
    (hfile : host.hasFile (o.scripts.installScript system) = true) :
    o.scripts.installScript system ∈ plan.scripts := by
  obtain ⟨before, hdirectives, -⟩ := exists_directives h
  have hplanned : Directive.shell (.script (o.scripts.installScript system)) ∈
      s.planDatabases host o :=
    mem_planDatabases_iff.mpr ⟨system, hsystem, hfile, rfl⟩
  refine List.mem_filterMap.mpr ⟨.shell (.script (o.scripts.installScript system)), ?_, rfl⟩
  rw [hdirectives]
  exact List.mem_append_right _ (List.mem_append_right _ hplanned)

/-- The scripts of a plan start with the scripts root, component by component, except for the
install script of a database system that is an absolute path: that one is in the directory the path
names, wherever the root is. -/
theorem scripts_of_plan (s : Settings) (host : Host) (o : PlanOptions) (plan : Plan)
    (h : s.plan host o = .ok plan) :
    (∀ path ∈ plan.scripts, o.scripts.Holds path ∨ ∃ system ∈ s.databases,
        isAbsolute system = true ∧ host.hasFile path = true ∧ path = join system "install.sh") ∧
      ((∀ path ∈ plan.scripts, o.scripts.Holds path) ↔
        ∀ system ∈ s.databases, isAbsolute system = true →
          host.hasFile (join system "install.sh") = true →
          o.scripts.Holds (join system "install.sh")) := by
  refine ⟨fun path hpath => holds_or_exists_database h hpath, ?_, ?_⟩
  · intro hall system hsystem habsolute hfile
    rw [← o.scripts.installScript_of_isAbsolute habsolute] at hfile ⊢
    exact hall _ (mem_scripts_of_mem_databases h system hsystem hfile)
  · intro hall path hpath
    rcases holds_or_exists_database h hpath with hholds | ⟨system, hsystem, habsolute, hfile, rfl⟩
    · exact hholds
    · exact hall system hsystem habsolute hfile

/-- Systems that are no absolute paths have their scripts below the root. -/
theorem scripts_varied : ∃ plan,
    varied.plan Host.furnished ⟨"/p", ⟨"/p/scripts"⟩, true⟩ = .ok plan ∧
      "/p/scripts/settings/mysql/install.sh" ∈ plan.scripts ∧
      ∀ path ∈ plan.scripts, ScriptsRoot.Holds ⟨"/p/scripts"⟩ path := by
  have hok : (varied.plan Host.furnished ⟨"/p", ⟨"/p/scripts"⟩, true⟩).isOk = true := by
    decide +kernel
  obtain ⟨plan, hplan⟩ := exists_eq_ok_of_isOk hok
  have hmysql : "/p/scripts/settings/mysql/install.sh" ∈ plan.scripts :=
    mem_scripts_of_mem_databases hplan "mysql" (by decide) (by decide +kernel)
  have hrelative : ∀ system ∈ varied.databases, isAbsolute system = false := by decide
  refine ⟨plan, hplan, hmysql, (scripts_of_plan _ _ _ plan hplan).2.mpr ?_⟩
  intro system hsystem habsolute
  rw [hrelative system hsystem] at habsolute
  cases habsolute

/-- Settings that name a database system by an absolute path. -/
def strayDatabase : Settings :=
  { blank with databases := ["/x"] }

end Settings

/-- A host with an install script outside of any scripts root. -/
def Host.withStray : Host :=
  ⟨⟨[(["x"], .directory), (["x", "install.sh"], .file (some ""))]⟩, "/home", [], none⟩

/-- The plan for them runs a script outside of the scripts root. -/
theorem Settings.scripts_strayDatabase : ∃ plan,
    strayDatabase.plan Host.withStray (.of "/p" "/p/scripts") = .ok plan ∧
      "/x/install.sh" ∈ plan.scripts ∧ ¬ScriptsRoot.Holds ⟨"/p/scripts"⟩ "/x/install.sh" := by
  have hok : (strayDatabase.plan Host.withStray (.of "/p" "/p/scripts")).isOk = true := by
    decide +kernel
  obtain ⟨plan, hplan⟩ := exists_eq_ok_of_isOk hok
  have hstray : "/x/install.sh" ∈ plan.scripts :=
    mem_scripts_of_mem_databases hplan "/x" (by decide) (by decide +kernel)
  exact ⟨plan, hplan, hstray, by decide⟩

end Provision
