import Provision.Plan.Basic
import Provision.Proofs.Plan.Keys
import Provision.Proofs.Settings.Find

/-!
# Plans from different starts

A plan depends on the settings file that is found, and on the disk and the home directory of the
host, but not on where the search for the file started, nor on the working directory or `PWD` of the
run. Every path that is asked of the host is absolute as soon as the home directory is: the settings
file is found under the path of its location, and relative paths start at its directory.
-/

namespace Provision

open Attempt HostPath

/-- Two runs see the same machine. Their working directories and their `PWD` may differ. -/
structure Host.SameMachine (host other : Host) : Prop where
  disk : host.disk = other.disk
  home : host.home = other.home

namespace Host.SameMachine

variable {host other : Host} {path : HostPath}

/-- Written paths are expanded alike: they start at the home directory or at the base. -/
theorem expand (h : host.SameMachine other) (raw : String) (base : HostPath) :
    host.expand raw base = other.expand raw base := by
  unfold Host.expand
  rw [h.home]

/-- An absolute path leads to the same place, whatever the working directory is. -/
theorem locate (h : host.SameMachine other) (habs : isAbsolute path = true) :
    host.locate path = other.locate path := by
  unfold Host.locate
  rw [if_pos habs, if_pos habs, h.disk]

/-- An absolute path leads to the same entry. -/
theorem entryAt? (h : host.SameMachine other) (habs : isAbsolute path = true) :
    host.entryAt? path = other.entryAt? path := by
  unfold Host.entryAt?
  rw [h.locate habs, h.disk]

/-- An absolute path leads to a regular file on both hosts or on none. -/
theorem hasFile (h : host.SameMachine other) (habs : isAbsolute path = true) :
    host.hasFile path = other.hasFile path := by
  unfold Host.hasFile
  rw [h.entryAt? habs]

theorem hasEntry (h : host.SameMachine other) (habs : isAbsolute path = true) :
    host.hasEntry path = other.hasEntry path := by
  unfold Host.hasEntry
  rw [h.entryAt? habs]

/-- An absolute path is read with the same text, or fails alike. -/
theorem readText (h : host.SameMachine other) (habs : isAbsolute path = true) :
    host.readText path = other.readText path := by
  unfold Host.readText
  rw [h.locate habs, h.disk]

end Host.SameMachine

/-! ## Plans on the same machine -/

/-- The scripts below an absolute root have absolute paths. -/
theorem ScriptsRoot.isAbsolute_installScript {root : ScriptsRoot}
    (h : isAbsolute root.path = true) (system : String) :
    isAbsolute (root.installScript system) = true :=
  isAbsolute_join (isAbsolute_join (isAbsolute_join h _) _) _

namespace Settings

variable {host other : Host} {o : PlanOptions}

/-- The public key is planned alike where written paths expand to absolute ones. -/
theorem planAuthorizedKey_congr (h : host.SameMachine other)
    (hpath : ∀ raw, isAbsolute (other.expand raw o.base) = true) (s : Settings) :
    s.planAuthorizedKey host o = s.planAuthorizedKey other o := by
  unfold planAuthorizedKey
  rcases s.authorize with _ | raw
  · rfl
  · dsimp only
    rw [h.expand, h.hasFile (hpath raw), h.readText (hpath raw)]

/-- A private key is found on both hosts or on none. -/
theorem keyFile_congr (h : host.SameMachine other)
    (hpath : ∀ raw, isAbsolute (other.expand raw o.base) = true) (raw : String) :
    keyFile host o raw = keyFile other o raw := by
  unfold keyFile
  rw [h.expand, h.hasFile (hpath raw)]

theorem planKeyFile_congr (h : host.SameMachine other) {path : HostPath}
    (habs : isAbsolute path = true) (raw : String) :
    planKeyFile host (raw, path) = planKeyFile other (raw, path) := by
  rw [planKeyFile_eq, planKeyFile_eq, h.readText habs]

/-- Private keys are planned alike where written paths expand to absolute ones. -/
theorem planPrivateKeys_congr (h : host.SameMachine other)
    (hpath : ∀ raw, isAbsolute (other.expand raw o.base) = true) (s : Settings) :
    s.planPrivateKeys host o = s.planPrivateKeys other o := by
  rcases hset : s.keys with _ | keys
  · unfold planPrivateKeys
    rw [hset]
  by_cases hkeys : keys = []
  · unfold planPrivateKeys
    rw [hset, hkeys]
  · have hlookup : keyFiles host o keys = keyFiles other o keys := by
      rw [keyFiles_eq_mapM, keyFiles_eq_mapM, funext (keyFile_congr h hpath)]
    rw [planPrivateKeys_of_ne_nil hset hkeys, planPrivateKeys_of_ne_nil hset hkeys, hlookup]
    rcases hfiles : keyFiles other o keys with e | files
    · rw [error_bind, error_bind]
    · -- the paths to be read are those that were looked up
      obtain ⟨-, rfl⟩ := keyFiles_eq_ok_iff.mp hfiles
      rw [ok_bind, ok_bind, List.mapM_map, List.mapM_map]
      exact congrArg (List.mapM · keys) (funext fun raw => planKeyFile_congr h (hpath raw) raw)

/-- Copies are planned alike: nothing is asked of the host about them. -/
theorem planCopies_congr (h : host.SameMachine other) (s : Settings) :
    s.planCopies host o = s.planCopies other o := by
  unfold planCopies
  apply List.map_congr_left
  intro copy _
  rw [h.expand]

theorem planFolders_congr (h : host.SameMachine other)
    (hpath : ∀ raw, isAbsolute (other.expand raw o.base) = true) (s : Settings) :
    s.planFolders host o = s.planFolders other o := by
  have hfolder : ∀ folder : Folder, folder.plan host o = folder.plan other o := by
    intro folder
    unfold Folder.plan
    rw [h.expand, h.hasEntry (hpath folder.map)]
  unfold planFolders
  rw [funext hfolder]

/-- The same database systems have an install script. -/
theorem planDatabases_congr (h : host.SameMachine other) (hscripts : isAbsolute o.scripts.path = true)
    (s : Settings) : s.planDatabases host o = s.planDatabases other o := by
  have hfilter : (s.databases.map o.scripts.installScript).filter host.hasFile =
      (s.databases.map o.scripts.installScript).filter other.hasFile := by
    apply List.filter_congr
    intro path hpath
    obtain ⟨system, -, rfl⟩ := List.mem_map.mp hpath
    exact h.hasFile (ScriptsRoot.isAbsolute_installScript hscripts system)
  unfold planDatabases
  rw [hfilter]

/-- On the same machine settings have the same plan, if no path starts at the working directory. -/
theorem plan_congr (h : host.SameMachine other) (hhome : isAbsolute other.home = true)
    (hbase : isAbsolute o.base = true) (hscripts : isAbsolute o.scripts.path = true) (s : Settings) :
    s.plan host o = s.plan other o := by
  have hpath : ∀ raw, isAbsolute (other.expand raw o.base) = true :=
    Host.isAbsolute_expand hhome hbase
  unfold plan Plan.ofNormalized
  rw [planAuthorizedKey_congr h hpath, planPrivateKeys_congr h hpath, planCopies_congr h,
    planFolders_congr h hpath, planDatabases_congr h hscripts]

/-! ## Settings from the same file -/

/-- Settings are read alike from an absolute path. -/
theorem load_congr (h : host.SameMachine other) {path : HostPath} (habs : isAbsolute path = true) :
    load host path = load other path := by
  unfold load
  rw [h.readText habs]

/-- Settings know the path they were read from. -/
theorem sourcePath_of_load {path : HostPath} {s : Settings} (h : load host path = .ok s) :
    s.sourcePath = some path := by
  obtain ⟨text, -, h⟩ := bind_eq_ok_iff.mp h
  obtain ⟨settings, -, ⟨⟩⟩ := bind_eq_ok_iff.mp h
  rfl

/-- Relative paths start at the directory of the settings file, and the scripts are there. -/
theorem ofSettings_of_load {directory : Location} {name : String} {s : Settings}
    (hnames : ∀ other ∈ directory, IsName other) (hname : IsName name)
    (h : load host (Host.pathOf (directory ++ [name])) = .ok s) (run : Host) :
    PlanOptions.ofSettings run s =
      { base := Host.pathOf directory
        scripts := ⟨Host.pathOf (directory ++ ["scripts"])⟩
        bindfs := false } := by
  have hdirectory : s.directory? = some (Host.pathOf directory) := by
    unfold directory?
    rw [sourcePath_of_load h]
    exact Host.parent?_pathOf_concat hnames hname
  unfold PlanOptions.ofSettings
  rw [hdirectory]
  dsimp only [Option.getD_some]
  rw [Host.join_pathOf hnames (by decide)]
  rfl

/-- The plan for a start path. -/
def planFrom (host : Host) (path : HostPath) (noParents : Bool) : Except Error Plan := do
  let settings ← findAndLoad host path noParents
  settings.plan host (PlanOptions.ofSettings host settings)

/-- A start path that leads to a file loads that file by its own absolute path. -/
theorem findAndLoad_of_leadsTo {path : HostPath} {file : Location} {noParents : Bool}
    (hpath : IsNormal path) (h : host.disk.LeadsTo noParents (HostPath.location path) file) :
    findAndLoad host path noParents = load host (Host.pathOf file) := by
  have hfind := find_pathOf (fun _ => Host.isName_of_mem_location hpath) h
  rw [Host.pathOf_location hpath] at hfind
  unfold findAndLoad
  rw [hfind, ok_bind]

/-- On the same machine, starts that lead to the same settings file have the same plan or the same
error, whatever the working directories and `PWD` are. Relative paths start at the directory of the
file, and the scripts are there. -/
theorem planFrom_eq_of_leadsTo (host other : Host) (path otherPath : HostPath) (file : Location)
    (noParents otherNoParents : Bool) (hsame : host.SameMachine other)
    (hhome : isAbsolute host.home = true) (hpath : IsNormal path) (hotherPath : IsNormal otherPath)
    (hleads : host.disk.LeadsTo noParents (HostPath.location path) file)
    (hotherLeads : other.disk.LeadsTo otherNoParents (HostPath.location otherPath) file) :
    planFrom host path noParents = planFrom other otherPath otherNoParents ∧
      ∀ s, findAndLoad host path noParents = .ok s →
        PlanOptions.ofSettings host s =
          { base := Host.pathOf file.dropLast
            scripts := ⟨Host.pathOf (file.dropLast ++ ["scripts"])⟩
            bindfs := false } := by
  obtain ⟨directory, name, rfl, hdirectory, hname⟩ :=
    exists_concat_of_leadsTo (fun _ => Host.isName_of_mem_location hpath) hleads
  rw [hsame.home] at hhome
  unfold planFrom
  rw [findAndLoad_of_leadsTo hpath hleads, findAndLoad_of_leadsTo hotherPath hotherLeads,
    load_congr hsame (Host.isAbsolute_pathOf _), List.dropLast_concat]
  constructor
  · rcases hload : load other (Host.pathOf (directory ++ [name])) with e | s
    · rw [error_bind, error_bind]
    · rw [ok_bind, ok_bind, ofSettings_of_load hdirectory hname hload host,
        ofSettings_of_load hdirectory hname hload other]
      -- the base and the scripts directory are the paths of locations, so both are absolute
      apply plan_congr hsame hhome
      · exact Host.isAbsolute_pathOf directory
      · exact Host.isAbsolute_pathOf (directory ++ ["scripts"])
  · intro s hload
    exact ofSettings_of_load hdirectory hname hload host

end Settings

/-- A project with a settings file and a directory, as a run sees it. -/
def Host.inProject (workingDirectory : Location) (pwd : Option String) : Host where
  disk := ⟨[(["p"], .directory), (["p", "Homestead.yaml"], .file (some "authorize: ~/id.pub")),
    (["p", "src"], .directory)]⟩
  home := "/home"
  workingDirectory := workingDirectory
  pwd := pwd

/-- A run from the file itself and one from a directory below have the same plan. -/
theorem Settings.planFrom_inProject :
    IsNormal "/p/Homestead.yaml" ∧ IsNormal "/p/src" ∧
      (Host.inProject ["p"] none).disk.LeadsTo true (HostPath.location "/p/Homestead.yaml")
        ["p", "Homestead.yaml"] ∧
      (Host.inProject [] (some "/q")).disk.LeadsTo false (HostPath.location "/p/src")
        ["p", "Homestead.yaml"] ∧
      planFrom (Host.inProject ["p"] none) "/p/Homestead.yaml" true =
        planFrom (Host.inProject [] (some "/q")) "/p/src" false := by
  have hfile : IsNormal "/p/Homestead.yaml" := by decide +kernel
  have hsource : IsNormal "/p/src" := by decide +kernel
  have hfileAt : HostPath.location "/p/Homestead.yaml" = ["p", "Homestead.yaml"] := by
    decide +kernel
  have hsourceAt : HostPath.location "/p/src" = ["p", "src"] := by decide +kernel
  have hitself : (Host.inProject ["p"] none).disk.LeadsTo true
      (HostPath.location "/p/Homestead.yaml") ["p", "Homestead.yaml"] := by
    rw [hfileAt]
    exact .itself (by decide) (by decide)
  -- nothing stands in the directory `src`, so the search goes one up
  have hnearer : ∀ nearer ∈ ["p", "src"].inits, ["p"] <+: nearer → nearer ≠ ["p"] →
      (Host.inProject [] (some "/q")).disk.settingsFile? nearer = none := by
    decide
  have hnearest : (Host.inProject [] (some "/q")).disk.LeadsTo false (HostPath.location "/p/src")
      ["p", "Homestead.yaml"] := by
    have habove : ["p"] <+: ["p", "src"] := by decide
    rw [hsourceAt]
    refine .nearest (by decide) habove (by decide) (fun nearer hdown hne hwithin => ?_) nofun
    exact hnearer nearer ((List.mem_inits _ _).mpr hwithin) hdown hne
  have hplan := planFrom_eq_of_leadsTo (Host.inProject ["p"] none) (Host.inProject [] (some "/q"))
    "/p/Homestead.yaml" "/p/src" ["p", "Homestead.yaml"] true false ⟨rfl, rfl⟩ (by decide) hfile
    hsource hitself hnearest
  exact ⟨hfile, hsource, hitself, hnearest, hplan.1⟩

end Provision
