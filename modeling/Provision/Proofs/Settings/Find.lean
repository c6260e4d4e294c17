import Mathlib.Data.List.Find
import Mathlib.Data.List.Induction
import Provision.Proofs.Host.Disk
import Provision.Settings.Find

/-!
# Found settings

Which settings file a start leads to, said of locations on the disk: the start itself when it is a
file, and otherwise the settings file of the nearest directory upwards that has one. The search over
path texts finds exactly this file, under the path of its location, from every start that leads
to it.
-/

namespace Provision

open HostPath

namespace Disk

/-- The name of the settings file in a directory: `Homestead.yaml` if there is one, and only then
`Homestead.json`. -/
def settingsName? (disk : Disk) (directory : Location) : Option String :=
  if disk.holdsFile (directory ++ ["Homestead.yaml"]) then some "Homestead.yaml"
  else if disk.holdsFile (directory ++ ["Homestead.json"]) then some "Homestead.json"
  else none

/-- The settings file of a directory. -/
def settingsFile? (disk : Disk) (directory : Location) : Option Location :=
  (disk.settingsName? directory).map fun name => directory ++ [name]

/-- A start location leads to a settings file. -/
inductive LeadsTo (disk : Disk) (noParents : Bool) : Location → Location → Prop
  | itself {file : Location} (hparents : disk.HasParents file)
      (hfile : disk.holdsFile file = true) : LeadsTo disk noParents file file
  /-- No directory from the start upwards that is nearer has a settings file. -/
  | nearest {start directory file : Location} (hstart : disk.IsDirectory start)
      (habove : directory <+: start) (hfile : disk.settingsFile? directory = some file)
      (hnearer : ∀ nearer, directory <+: nearer → nearer ≠ directory → nearer <+: start →
        disk.settingsFile? nearer = none)
      (hparents : noParents = true → directory = start) : LeadsTo disk noParents start file

/-- The preferred name is the first one in the list that the search goes through. -/
theorem settingsName?_eq_find? (disk : Disk) (directory : Location) :
    disk.settingsName? directory =
      Settings.fileNames.find? fun name => disk.holdsFile (directory ++ [name]) := by
  unfold settingsName? Settings.fileNames
  by_cases hyaml : disk.holdsFile (directory ++ ["Homestead.yaml"]) = true
  · rw [if_pos hyaml, List.find?_cons, hyaml]
  · rw [if_neg hyaml, List.find?_cons, (Bool.not_eq_true _).mp hyaml]
    by_cases hjson : disk.holdsFile (directory ++ ["Homestead.json"]) = true
    · rw [if_pos hjson, List.find?_cons, hjson]
    · rw [if_neg hjson, List.find?_cons, (Bool.not_eq_true _).mp hjson, List.find?_nil]

theorem mem_fileNames_of_settingsName? {disk : Disk} {directory : Location} {name : String}
    (h : disk.settingsName? directory = some name) : name ∈ Settings.fileNames := by
  rw [settingsName?_eq_find?] at h
  exact List.mem_of_find?_eq_some h

/-- The settings file of a directory is in it, under one of the two names. -/
theorem exists_name_of_settingsFile? {disk : Disk} {directory file : Location}
    (h : disk.settingsFile? directory = some file) :
    ∃ name ∈ Settings.fileNames, file = directory ++ [name] := by
  obtain ⟨name, hname, rfl⟩ := Option.map_eq_some_iff.mp h
  exact ⟨name, mem_fileNames_of_settingsName? hname, rfl⟩

end Disk

namespace Settings

variable {host : Host} {start directory file : Location} {noParents : Bool}

/-- The names of settings files are single components of a path. -/
theorem isName_of_mem_fileNames {name : String} (h : name ∈ fileNames) : IsName name := by
  rcases List.mem_cons.mp h with rfl | h
  · decide
  · rw [List.mem_singleton.mp h]
    decide

/-- A file that a start leads to has a name, and names above it. -/
theorem exists_concat_of_leadsTo {disk : Disk} (hnames : ∀ name ∈ start, IsName name)
    (h : disk.LeadsTo noParents start file) : ∃ directory name, file = directory ++ [name] ∧
      (∀ other ∈ directory, IsName other) ∧ IsName name := by
  rcases h with ⟨-, hfile⟩ | ⟨-, habove, hfile, -, -⟩
  · rcases List.eq_nil_or_concat' start with rfl | ⟨directory, name, rfl⟩
    · cases hfile
    · refine ⟨directory, name, rfl, fun other hother => ?_, hnames name (by simp)⟩
      exact hnames other (List.mem_append_left [name] hother)
  · obtain ⟨name, hname, rfl⟩ := Disk.exists_name_of_settingsFile? hfile
    refine ⟨_, name, rfl, fun other hother => ?_, isName_of_mem_fileNames hname⟩
    exact hnames other (habove.subset hother)

/-- Looking for a settings file in the directory at a path finds the one the disk holds there. -/
theorem fileIn?_pathOf (hnames : ∀ name ∈ directory, IsName name)
    (hdirectory : host.disk.IsDirectory directory) :
    fileIn? host (Host.pathOf directory) =
      (host.disk.settingsFile? directory).map Host.pathOf := by
  have hpaths : fileNames.map (join (Host.pathOf directory)) =
      fileNames.map fun name => Host.pathOf (directory ++ [name]) := by
    apply List.map_congr_left
    intro name hname
    exact Host.join_pathOf hnames (isName_of_mem_fileNames hname)
  unfold fileIn? Disk.settingsFile?
  rw [hpaths, List.find?_map, Option.map_map, Disk.settingsName?_eq_find?]
  apply congrArg (Option.map fun name => Host.pathOf (directory ++ [name]))
  apply List.find?_congr
  intro name hname
  apply Host.hasFile_pathOf
  · intro other hother
    rcases List.mem_append.mp hother with hother | hother
    · exact hnames other hother
    · exact List.mem_singleton.mp hother ▸ isName_of_mem_fileNames hname
  · exact hdirectory.hasParents_concat name

/-- The search upwards stops at the nearest directory that has a settings file. -/
theorem findSome?_nearest (hnames : ∀ name ∈ start, IsName name)
    (hstart : host.disk.IsDirectory start) (habove : directory <+: start)
    (hfile : host.disk.settingsFile? directory = some file)
    (hnearer : ∀ nearer, directory <+: nearer → nearer ≠ directory → nearer <+: start →
      host.disk.settingsFile? nearer = none) :
    (Host.pathOf start :: parents (Host.pathOf start)).findSome? (fileIn? host) =
      some (Host.pathOf file) := by
  -- by induction on the start from its last name, since the search drops that one first
  induction start using List.reverseRecOn with
  | nil =>
    have hroot := List.prefix_nil.mp habove
    rw [List.findSome?_cons, fileIn?_pathOf hnames hstart, ← hroot, hfile]
    rfl
  | append_singleton init name ih =>
    rw [List.findSome?_cons, fileIn?_pathOf hnames hstart]
    by_cases hhere : directory = init ++ [name]
    · rw [← hhere, hfile]
      rfl
    · have hinit : directory <+: init := (List.prefix_concat_iff.mp habove).resolve_left hhere
      have hnames' : ∀ other ∈ init, IsName other := fun other hother =>
        hnames other (List.mem_append_left [name] hother)
      have hup : init <+: init ++ [name] := List.prefix_append init [name]
      rw [hnearer _ habove (fun h => hhere h.symm) (List.prefix_refl _),
        Host.parents_pathOf_concat hnames' (hnames name (by simp))]
      apply ih hnames' (hstart.of_prefix hup) hinit
      intro nearer hdown hne hwithin
      exact hnearer nearer hdown hne (hwithin.trans hup)

/-- The search finds the settings file a start leads to. -/
theorem find_pathOf (hnames : ∀ name ∈ start, IsName name)
    (h : host.disk.LeadsTo noParents start file) :
    find host (Host.pathOf start) noParents = .ok (Host.pathOf file) := by
  have hstart : startPath host (Host.pathOf start) = Host.pathOf start :=
    if_pos (Host.isAbsolute_pathOf start)
  unfold find
  rw [hstart]
  dsimp only
  rcases h with ⟨hparents, hfile⟩ | ⟨hdirectory, habove, hfile, hnearer, hparents⟩
  · rw [if_pos ((Host.hasFile_pathOf hnames hparents).trans hfile)]
  · rw [Host.hasFile_pathOf_of_isDirectory hnames hdirectory,
      Host.hasDirectory_pathOf hnames hdirectory, if_neg Bool.false_ne_true, if_neg (by decide)]
    by_cases hflag : noParents = true
    · obtain rfl := hparents hflag
      rw [if_pos hflag, fileIn?_pathOf hnames hdirectory, hfile]
      rfl
    · rw [if_neg hflag, findSome?_nearest hnames hdirectory habove hfile hnearer]

end Settings

end Provision
