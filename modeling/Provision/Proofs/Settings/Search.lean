import Provision.Proofs.Host.Descent
import Provision.Proofs.Settings.Find

/-!
# The search upwards

What a search gives, whatever its start. From a directory it visits the directories that the
beginnings of the start's descent lead to, the longest one first, and stops at the first one that
has a settings file. Without steps upwards these are the start and the directories above it, so the
nearest one is found. A step upwards at the end of a beginning is dropped like a name: the next
directory to be visited is then the one the step came from, which is below and not above.
-/

namespace Provision

open Attempt HostPath

/-! ## Settings files of locations -/

namespace Disk

variable {disk : Disk} {start directory : Location}

/-- The settings file of a directory is a regular file. -/
theorem holdsFile_of_settingsName? {name : String} (h : disk.settingsName? directory = some name) :
    disk.holdsFile (directory ++ [name]) = true := by
  rw [settingsName?_eq_find?] at h
  exact List.find?_some (p := fun name => disk.holdsFile (directory ++ [name])) h

/-- A settings file goes by a single component. -/
theorem isName_of_settingsName? {name : String} (h : disk.settingsName? directory = some name) :
    IsName name :=
  Settings.isName_of_mem_fileNames (mem_fileNames_of_settingsName? h)

/-- Whether a directory is on the line from a start up to the root, and none before it has a
settings file. -/
structure IsNearest (disk : Disk) (start directory : Location) : Prop where
  above : directory <+: start
  nearer : ∀ nearer, directory <+: nearer → nearer ≠ directory → nearer <+: start →
    disk.settingsName? nearer = none

/-- One step from a directory stays below it, unless it is one upwards and there is a way up. -/
theorem Moves.prefix_iff {name : String} {next : Location} (h : disk.Moves directory name next) :
    directory <+: next ↔ (name = ".." → directory = []) := by
  cases h with
  | stay hname =>
    have hup : name ≠ ".." := by simp [hname]
    exact iff_of_true (List.prefix_refl _) fun h => absurd h hup
  | up hname =>
    constructor
    · intro hprefix _
      have hlength := hprefix.length_le
      rw [List.length_dropLast] at hlength
      apply List.length_eq_zero_iff.mp
      omega
    · intro hroot
      rw [hroot hname]
      exact List.nil_prefix
  | down _ hup => exact iff_of_true (List.prefix_append _ _) fun h => absurd h hup

section Passing

variable {name : String} {dropped : List String}
  (hname : disk.settingsName? directory = some name)
  (hfree : ∀ before passed, before <+: dropped → before ≠ [] →
    disk.walk directory before = .ok passed → disk.settingsName? passed = none)

include hname hfree

/-- A walk that passes no directory with a settings file cannot come back to one. -/
theorem eq_nil_of_walk_self {before : List String} (hbefore : before <+: dropped)
    (hwalk : disk.walk directory before = .ok directory) : before = [] := by
  by_contra hne
  have hnone := hfree before directory hbefore hne hwalk
  rw [hname] at hnone
  cases hnone

/-- So it ends below the directory it starts at if that is where its first step leads. -/
theorem prefix_iff_of_walk (hstart : disk.walk directory dropped = .ok start) :
    directory <+: start ↔ (dropped.head? = some ".." → directory = []) := by
  rcases dropped with _ | ⟨step, rest⟩
  · cases hstart
    exact iff_of_true (List.prefix_refl _) nofun
  obtain ⟨hdirectory, next, hmove, hrest⟩ := walk_cons_eq_ok_iff.mp hstart
  have hstay : directory <+: next ↔ directory <+: start := by
    by_contra hcross
    obtain ⟨before, hbefore, hwalk⟩ := exists_walk_of_crossing hrest hcross
    have hback : disk.walk directory (step :: before) = .ok directory :=
      walk_cons_eq_ok_iff.mpr ⟨hdirectory, next, hmove, hwalk⟩
    have hnil := eq_nil_of_walk_self hname hfree (List.cons_prefix_cons.mpr ⟨rfl, hbefore⟩) hback
    cases hnil
  rw [← hstay, hmove.prefix_iff, List.head?_cons, Option.some.injEq]

/-- A walk starts at a directory with a settings file and passes no other one on its way. Then the
directory is the nearest one above the end, unless the walk leaves it by a step upwards at once. -/
theorem isNearest_iff (hstart : disk.walk directory dropped = .ok start) :
    disk.IsNearest start directory ↔ (dropped.head? = some ".." → directory = []) := by
  rw [← prefix_iff_of_walk hname hfree hstart]
  constructor
  · intro hnearest
    exact hnearest.above
  · intro habove
    refine ⟨habove, fun nearer hdown hne hwithin => ?_⟩
    -- the walk goes from above the nearer directory to below it
    have hcross : ¬(nearer <+: directory ↔ nearer <+: start) := fun h =>
      hne ((h.mpr hwithin).eq_of_length_le hdown.length_le)
    obtain ⟨before, hbefore, hwalk⟩ := exists_walk_of_crossing hstart hcross
    have hmoved : before ≠ [] := by
      rintro rfl
      cases hwalk
      exact hne rfl
    exact hfree before nearer hbefore hmoved hwalk

end Passing

end Disk

namespace Settings

variable {host : Host} {path found : HostPath} {noParents : Bool} {start directory : Location}

/-! ## Directories that are visited -/

/-- The settings file in the directory that a path leads to, under that path. -/
theorem fileIn?_eq_map (hpath : host.locate path = .ok directory)
    (hdirectory : host.disk.lookup? directory = some .directory) :
    fileIn? host path = (host.disk.settingsName? directory).map (join path) := by
  unfold fileIn?
  rw [Disk.settingsName?_eq_find?, List.find?_map]
  apply congrArg (Option.map (join path))
  apply List.find?_congr
  intro name hname
  have hentry := Host.entryAt?_join hpath hdirectory (isName_of_mem_fileNames hname)
  rw [Function.comp_apply, Bool.eq_iff_iff, Host.hasFile_iff, Disk.holdsFile_iff, hentry]

/-- Every path above one that leads to a directory leads to a directory, from which the rest of the
descent leads on. -/
theorem exists_directory_of_mem_parents (habs : isAbsolute path = true)
    (hstart : host.locate path = .ok start)
    (hdirectory : host.disk.lookup? start = some .directory) {above : HostPath}
    (habove : above ∈ path :: parents path) :
    ∃ dropped directory, descent path = descent above ++ dropped ∧
      host.disk.lookup? directory = some .directory ∧ host.locate above = .ok directory ∧
      host.disk.walk [] (descent above) = .ok directory ∧
      host.disk.walk directory dropped = .ok start := by
  obtain ⟨dropped, hdropped⟩ := (mem_map_descent_iff habs).mp ⟨above, habove, rfl⟩
  have hwalk := (Host.locate_eq_ok_iff_walk habs hdirectory).mp hstart
  rw [← hdropped] at hwalk
  obtain ⟨directory, hkept, hrest⟩ := Disk.walk_append_eq_ok_iff.mp hwalk
  have hhere := Disk.lookup?_eq_directory_of_walk hrest hdirectory
  have hlocate := (Host.locate_eq_ok_iff_walk (isAbsolute_of_mem_parents habs habove) hhere).mpr hkept
  exact ⟨dropped, directory, hdropped.symm, hhere, hlocate, hkept, hrest⟩

theorem startPath_of_isAbsolute (habs : isAbsolute path = true) : startPath host path = path :=
  if_pos habs

/-- A start path to a regular file is taken as it is. -/
theorem find_of_hasFile (habs : isAbsolute path = true) (hfile : host.hasFile path = true) :
    find host path noParents = .ok path := by
  unfold find
  rw [startPath_of_isAbsolute habs]
  exact if_pos hfile

/-- A start path that leads to nothing is reported as such. -/
theorem find_of_missing (habs : isAbsolute path = true) (hfile : host.hasFile path = false)
    (hdirectory : host.hasDirectory path = false) :
    find host path noParents = .error (.notFoundAtPath path) := by
  unfold find
  rw [startPath_of_isAbsolute habs]
  dsimp only
  rw [hfile, hdirectory]
  rfl

theorem hasFile_of_hasDirectory (hdirectory : host.hasDirectory path = true) :
    host.hasFile path = false := by
  have hentry : host.entryAt? path = some .directory := eq_of_beq hdirectory
  unfold Host.hasFile
  rw [hentry]

/-- From a directory the search looks there, and then upwards unless it may not. -/
theorem find_of_hasDirectory (habs : isAbsolute path = true)
    (hdirectory : host.hasDirectory path = true) :
    find host path noParents =
      if noParents = true then
        match fileIn? host path with
        | some found => .ok found
        | none => .error (.notFoundAtPath path)
      else
        match (path :: parents path).findSome? (fileIn? host) with
        | some found => .ok found
        | none => .error (.notFoundInTree path) := by
  unfold find
  rw [startPath_of_isAbsolute habs]
  dsimp only
  rw [hasFile_of_hasDirectory hdirectory, hdirectory]
  rfl

/-- A search from a directory finds the file that is met first on the way up. -/
theorem find_eq_ok_iff_of_directory (habs : isAbsolute path = true)
    (hdirectory : host.hasDirectory path = true) :
    find host path noParents = .ok found ↔
      ∃ above ∈ path :: parents path, (noParents = true → above = path) ∧
        fileIn? host above = some found ∧
        ∀ nearer ∈ path :: parents path, descent above <+: descent nearer →
          descent nearer ≠ descent above → fileIn? host nearer = none := by
  rw [find_of_hasDirectory habs hdirectory]
  by_cases hflag : noParents = true
  · rw [if_pos hflag]
    constructor
    · intro h
      split at h
      · next other hother =>
        cases h
        refine ⟨path, List.mem_cons_self, fun _ => rfl, hother, fun nearer hnearer hprefix hne => ?_⟩
        -- no descent on the way up is longer than that of the start
        have hstart := (mem_map_descent_iff habs).mp ⟨nearer, hnearer, rfl⟩
        exact absurd (hstart.eq_of_length_le hprefix.length_le) hne
      · cases h
    · intro h
      obtain ⟨above, -, habove, hfile, -⟩ := h
      rw [← habove hflag, hfile]
  · rw [if_neg hflag]
    constructor
    · intro h
      split at h
      · next other hother =>
        cases h
        obtain ⟨above, hmem, hfile, hnearer⟩ := (findSome?_parents_eq_some_iff habs).mp hother
        exact ⟨above, hmem, fun h => absurd h hflag, hfile, hnearer⟩
      · cases h
    · intro h
      obtain ⟨above, hmem, -, hfile, hnearer⟩ := h
      rw [(findSome?_parents_eq_some_iff habs).mpr ⟨above, hmem, hfile, hnearer⟩]

/-- A search from a directory fails if no directory that it visits has a settings file. -/
theorem find_eq_error_iff_of_directory (habs : isAbsolute path = true)
    (hdirectory : host.hasDirectory path = true) {e : Error} :
    find host path noParents = .error e ↔
      noParents = true ∧ fileIn? host path = none ∧ e = .notFoundAtPath path ∨
        noParents = false ∧ (∀ above ∈ path :: parents path, fileIn? host above = none) ∧
          e = .notFoundInTree path := by
  rw [find_of_hasDirectory habs hdirectory]
  rcases noParents with _ | _
  · rw [if_neg Bool.false_ne_true, ← List.findSome?_eq_none_iff]
    rcases (path :: parents path).findSome? (fileIn? host) with _ | found
    · simp [eq_comm]
    · simp
  · rw [if_pos rfl]
    rcases fileIn? host path with _ | found
    · simp [eq_comm]
    · simp

/-- The names on the way down from the root are no lone dots. -/
theorem ne_dot_of_mem_descent (habs : isAbsolute path = true) {name : String}
    (h : name ∈ descent path) : name ≠ "." := by
  rw [← Host.filter_steps habs] at h
  exact of_decide_eq_true (List.mem_filter.mp h).2

/-! ## Any start at a directory -/

/-- The search starts from an absolute path. -/
theorem isAbsolute_startPath (hpwd : ∀ pwd ∈ host.pwd, isAbsolute pwd = true) (path : HostPath) :
    isAbsolute (startPath host path) = true := by
  unfold startPath
  split
  · assumption
  · apply isAbsolute_join
    rcases h : host.pwd with _ | pwd
    · exact Host.isAbsolute_pathOf host.workingDirectory
    · exact hpwd pwd h

/-- The search for a start path is the search for its absolute form. -/
theorem find_startPath (habs : isAbsolute (startPath host path) = true) :
    find host (startPath host path) noParents = find host path noParents := by
  unfold find
  rw [startPath_of_isAbsolute habs]

/-- A longer beginning of the descent is that of a nearer path. So if no nearer path has a settings
file, the walk over what was dropped passes none. -/
theorem settingsName?_eq_none_of_nearer (habs : isAbsolute path = true)
    (hstart : host.locate path = .ok start)
    (hdirectory : host.disk.lookup? start = some .directory) {above : HostPath}
    {dropped : List String} (hdescent : descent path = descent above ++ dropped)
    (hkept : host.disk.walk [] (descent above) = .ok directory)
    (hnearer : ∀ nearer ∈ path :: parents path, descent above <+: descent nearer →
      descent nearer ≠ descent above → fileIn? host nearer = none)
    (before : List String) (passed : Location) (hbefore : before <+: dropped) (hne : before ≠ [])
    (hwalk : host.disk.walk directory before = .ok passed) :
    host.disk.settingsName? passed = none := by
  have hlonger : descent above ++ before <+: descent path := by
    rw [hdescent]
    exact (List.prefix_append_right_inj _).mpr hbefore
  obtain ⟨nearer, hmem, hdescent'⟩ := (mem_map_descent_iff habs).mpr hlonger
  have hprefix : descent above <+: descent nearer := by
    rw [hdescent']
    exact List.prefix_append _ _
  have hdiffer : descent nearer ≠ descent above := by
    rw [hdescent']
    intro h
    exact hne (List.append_right_eq_self.mp h)
  have hnone := hnearer nearer hmem hprefix hdiffer
  obtain ⟨_, passed', -, hpassed, hlocate', hwalk', -⟩ :=
    exists_directory_of_mem_parents habs hstart hdirectory hmem
  rw [hdescent', Disk.walk_append, hkept, ok_bind, hwalk] at hwalk'
  cases hwalk'
  rw [fileIn?_eq_map hlocate' hpassed] at hnone
  exact Option.map_eq_none_iff.mp hnone

/-- A search from a directory finds the settings file of the directory that some beginning of the
start's descent leads to, and no longer beginning leads to one that has any. This is the nearest
directory on the line from the start up to the root, except if the step that was dropped last is one
upwards, from a directory other than the root: then the directory is not on that line at all. -/
theorem isNearest_iff_of_find (host : Host) (path : HostPath) (noParents : Bool) (start : Location)
    (found : HostPath) (hpwd : ∀ pwd ∈ host.pwd, isAbsolute pwd = true)
    (hstart : host.locate (startPath host path) = .ok start)
    (hdirectory : host.disk.lookup? start = some .directory)
    (hfind : find host path noParents = .ok found) :
    ∃ kept dropped directory name, descent (startPath host path) = kept ++ dropped ∧
      host.disk.walk [] kept = .ok directory ∧ host.disk.settingsName? directory = some name ∧
      host.locate found = .ok (directory ++ [name]) ∧
      (∀ before passed, before <+: dropped → before ≠ [] →
        host.disk.walk directory before = .ok passed → host.disk.settingsName? passed = none) ∧
      (host.disk.IsNearest start directory ↔ (dropped.head? = some ".." → directory = [])) := by
  have habs := isAbsolute_startPath hpwd path
  rw [← find_startPath habs] at hfind
  -- from here on only the path that the search begins with matters
  generalize startPath host path = path at *
  have hthere : host.hasDirectory path = true :=
    beq_iff_eq.mpr (Host.entryAt?_eq_some_iff.mpr ⟨start, hstart, hdirectory⟩)
  obtain ⟨above, habove, -, hfile, hnearer⟩ := (find_eq_ok_iff_of_directory habs hthere).mp hfind
  obtain ⟨dropped, directory, hdescent, hhere, hlocate, hkept, hrest⟩ :=
    exists_directory_of_mem_parents habs hstart hdirectory habove
  rw [fileIn?_eq_map hlocate hhere] at hfile
  obtain ⟨name, hname, rfl⟩ := Option.map_eq_some_iff.mp hfile
  have hfree := settingsName?_eq_none_of_nearer habs hstart hdirectory hdescent hkept hnearer
  refine ⟨descent above, dropped, directory, name, hdescent, hkept, hname, ?_, hfree,
    Disk.isNearest_iff hname hfree hrest⟩
  obtain ⟨text, hentry⟩ := Disk.holdsFile_iff.mp (Disk.holdsFile_of_settingsName? hname)
  rw [Host.locate_join hlocate hhere (Disk.isName_of_settingsName? hname), hentry]
  rfl

end Settings

/-- A directory with settings, and in it one with two more; only the first of these has a settings
file, since what the second one has under this name is a directory. -/
def Host.inBranch : Host where
  disk := ⟨[(["r"], .directory), (["r", "Homestead.json"], .file (some "")), (["r", "b"], .directory),
    (["r", "b", "a"], .directory), (["r", "b", "a", "Homestead.yaml"], .file (some "")),
    (["r", "b", "c"], .directory), (["r", "b", "c", "Homestead.yaml"], .directory)]⟩
  home := "/home"
  workingDirectory := []
  pwd := some "/r/b"

namespace Settings

/-- A start path with steps upwards that finds the nearest file all the same. -/
theorem isNearest_iff_of_find_detour :
    (∀ pwd ∈ Host.inBranch.pwd, isAbsolute pwd = true) ∧
      Host.inBranch.locate (startPath Host.inBranch "a/../../b/c") = .ok ["r", "b", "c"] ∧
      Host.inBranch.disk.lookup? ["r", "b", "c"] = some .directory ∧
      find Host.inBranch "a/../../b/c" false = .ok "/r/b/a/../../Homestead.json" ∧
      Host.inBranch.disk.IsNearest ["r", "b", "c"] ["r"] := by
  have hpwd : ∀ pwd ∈ Host.inBranch.pwd, isAbsolute pwd = true := by decide
  have hstart : Host.inBranch.locate (startPath Host.inBranch "a/../../b/c") =
      .ok ["r", "b", "c"] := by
    decide +kernel
  have hdirectory : Host.inBranch.disk.lookup? ["r", "b", "c"] = some .directory := by decide
  have hfind : find Host.inBranch "a/../../b/c" false = .ok "/r/b/a/../../Homestead.json" := by rfl
  refine ⟨hpwd, hstart, hdirectory, hfind, ?_⟩
  obtain ⟨kept, dropped, directory, name, hdescent, hkept, -, hfound, -, hnearest⟩ :=
    isNearest_iff_of_find _ _ _ _ _ hpwd hstart hdirectory hfind
  have hfile : Host.inBranch.locate "/r/b/a/../../Homestead.json" =
      .ok (["r"] ++ ["Homestead.json"]) := by
    decide +kernel
  rw [hfile] at hfound
  obtain ⟨rfl, -⟩ := List.append_inj' (Except.ok.inj hfound) rfl
  -- both beginnings that lead there are followed by a name
  have hparts : kept ++ dropped = ["r", "b", "a", "..", "..", "b", "c"] :=
    hdescent.symm.trans (by decide +kernel)
  have hname : ∀ n < 8, Host.inBranch.disk.walk [] (["r", "b", "a", "..", "..", "b", "c"].take n) =
      .ok ["r"] → (["r", "b", "a", "..", "..", "b", "c"].drop n).head? ≠ some ".." := by
    decide
  have hlength : kept.length < 8 := by
    have h := congrArg List.length hparts
    simp at h
    omega
  apply hnearest.mpr
  intro hhead
  have hnot := hname kept.length hlength
  rw [← hparts, List.take_left, List.drop_left] at hnot
  exact absurd hhead (hnot hkept)

/-- A search that starts at `a/..` goes on in `a`, which is no directory above the start. -/
theorem find_belowStart :
    Host.inBranch.pwd = some "/r/b" ∧ isAbsolute "/r/b" = true ∧
      Host.inBranch.hasDirectory "/r/b" = true ∧
      Host.inBranch.locate (startPath Host.inBranch "a/..") = .ok ["r", "b"] ∧
      Host.inBranch.disk.lookup? ["r", "b"] = some .directory ∧
      find Host.inBranch "a/.." false = .ok "/r/b/a/Homestead.yaml" ∧
      Host.inBranch.locate "/r/b/a/Homestead.yaml" = .ok (["r", "b", "a"] ++ ["Homestead.yaml"]) ∧
      ¬["r", "b", "a"] <+: ["r", "b"] := by
  refine ⟨rfl, by decide, by decide +kernel, by decide +kernel, by decide, by rfl,
    by decide +kernel, by decide⟩

/-! ## Starts without steps upwards -/

/-- What a search from an absolute path gives, if the path has no step upwards. -/
inductive Finds (host : Host) (path : HostPath) (noParents : Bool) : Except Error HostPath → Prop
  | itself (hfile : host.hasFile path = true) : Finds host path noParents (.ok path)
  | missing (hfile : host.hasFile path = false) (hdirectory : host.hasDirectory path = false) :
      Finds host path noParents (.error (.notFoundAtPath path))
  /-- The directory is named by a path above the start, and the file is under that path. -/
  | nearest {above : HostPath} {name : String} (hdirectory : host.hasDirectory path = true)
      (habove : above ∈ path :: parents path)
      (hnearest : host.disk.IsNearest (descent path) (descent above))
      (hname : host.disk.settingsName? (descent above) = some name)
      (hparents : noParents = true → above = path) : Finds host path noParents (.ok (join above name))
  | notHere (hdirectory : host.hasDirectory path = true) (hflag : noParents = true)
      (hnone : host.disk.settingsName? (descent path) = none) :
      Finds host path noParents (.error (.notFoundAtPath path))
  | nowhere (hdirectory : host.hasDirectory path = true) (hflag : noParents = false)
      (hnone : ∀ above, above <+: descent path → host.disk.settingsName? above = none) :
      Finds host path noParents (.error (.notFoundInTree path))

/-- Without steps upwards a path above names the location with the components it has. -/
theorem fileIn?_eq_map_of_mem_parents (habs : isAbsolute path = true) (hup : ".." ∉ descent path)
    (hdirectory : host.hasDirectory path = true) {above : HostPath}
    (habove : above ∈ path :: parents path) :
    fileIn? host above = (host.disk.settingsName? (descent above)).map (join above) := by
  obtain ⟨start, hstart, hthere⟩ := Host.entryAt?_eq_some_iff.mp (eq_of_beq hdirectory)
  obtain ⟨dropped, directory, hdescent, hhere, hlocate, hkept, -⟩ :=
    exists_directory_of_mem_parents habs hstart hthere habove
  have hnames : ∀ name ∈ descent above, name ≠ "." ∧ name ≠ ".." := by
    intro name hname
    have hmem : name ∈ descent path := by
      rw [hdescent]
      exact List.mem_append_left _ hname
    refine ⟨ne_dot_of_mem_descent habs hmem, ?_⟩
    rintro rfl
    exact hup hmem
  have hlocation : directory = descent above := Disk.eq_append_of_walk hnames hkept
  rw [fileIn?_eq_map hlocate hhere, hlocation]

/-- The directories above a path are on the way down to it. -/
theorem descent_prefix_of_mem_parents (habs : isAbsolute path = true) {above : HostPath}
    (habove : above ∈ path :: parents path) : descent above <+: descent path :=
  (mem_map_descent_iff habs).mp ⟨above, habove, rfl⟩

theorem finds_find (habs : isAbsolute path = true) (hup : ".." ∉ descent path) :
    Finds host path noParents (find host path noParents) := by
  by_cases hfile : host.hasFile path = true
  · rw [find_of_hasFile habs hfile]
    exact .itself hfile
  rw [Bool.not_eq_true] at hfile
  by_cases hdirectory : host.hasDirectory path = true
  · rcases hfind : find host path noParents with e | found
    · rcases (find_eq_error_iff_of_directory habs hdirectory).mp hfind with
        ⟨hflag, hnone, rfl⟩ | ⟨hflag, hnone, rfl⟩
      · rw [fileIn?_eq_map_of_mem_parents habs hup hdirectory List.mem_cons_self,
          Option.map_eq_none_iff] at hnone
        exact .notHere hdirectory hflag hnone
      -- the directories searched and those above the path in its descent are the same ones
      · refine .nowhere hdirectory hflag fun kept hkept => ?_
        obtain ⟨above, habove, rfl⟩ := (mem_map_descent_iff habs).mpr hkept
        have h := hnone above habove
        rwa [fileIn?_eq_map_of_mem_parents habs hup hdirectory habove, Option.map_eq_none_iff] at h
    · obtain ⟨above, habove, hparents, hfound, hnearer⟩ :=
        (find_eq_ok_iff_of_directory habs hdirectory).mp hfind
      rw [fileIn?_eq_map_of_mem_parents habs hup hdirectory habove] at hfound
      obtain ⟨name, hname, rfl⟩ := Option.map_eq_some_iff.mp hfound
      refine .nearest hdirectory habove ⟨descent_prefix_of_mem_parents habs habove, ?_⟩ hname hparents
      intro kept hdown hne hwithin
      obtain ⟨nearer, hmem, rfl⟩ := (mem_map_descent_iff habs).mpr hwithin
      have h := hnearer nearer hmem hdown hne
      rwa [fileIn?_eq_map_of_mem_parents habs hup hdirectory hmem, Option.map_eq_none_iff] at h
  · rw [Bool.not_eq_true] at hdirectory
    rw [find_of_missing habs hfile hdirectory]
    exact .missing hfile hdirectory

/-- What is to be found is what the search gives. -/
theorem find_of_finds (habs : isAbsolute path = true) (hup : ".." ∉ descent path)
    {r : Except Error HostPath} (h : Finds host path noParents r) :
    find host path noParents = r := by
  cases h with
  | itself hfile => exact find_of_hasFile habs hfile
  | missing hfile hdirectory => exact find_of_missing habs hfile hdirectory
  -- only the directories below the one found are searched before it
  | nearest hdirectory habove hnearest hname hparents =>
    refine (find_eq_ok_iff_of_directory habs hdirectory).mpr
      ⟨_, habove, hparents, ?_, fun nearer hmem hdown hne => ?_⟩
    · rw [fileIn?_eq_map_of_mem_parents habs hup hdirectory habove, hname]
      rfl
    · have hwithin := descent_prefix_of_mem_parents habs hmem
      rw [fileIn?_eq_map_of_mem_parents habs hup hdirectory hmem,
        hnearest.nearer _ hdown hne hwithin]
      rfl
  | notHere hdirectory hflag hnone =>
    refine (find_eq_error_iff_of_directory habs hdirectory).mpr (.inl ⟨hflag, ?_, rfl⟩)
    rw [fileIn?_eq_map_of_mem_parents habs hup hdirectory List.mem_cons_self, hnone]
    rfl
  | nowhere hdirectory hflag hnone =>
    refine (find_eq_error_iff_of_directory habs hdirectory).mpr
      (.inr ⟨hflag, fun above habove => ?_, rfl⟩)
    have hwithin := descent_prefix_of_mem_parents habs habove
    rw [fileIn?_eq_map_of_mem_parents habs hup hdirectory habove, hnone _ hwithin]
    rfl

/-- The search from an absolute path without steps upwards always gives one result: the path itself
if it is a file, an error if nothing is there, and for a directory the settings file of the nearest
directory upwards that has one, or an error if there is none. -/
theorem find_eq_iff_finds (host : Host) (path : HostPath) (noParents : Bool)
    (r : Except Error HostPath) (habs : isAbsolute path = true) (hup : ".." ∉ descent path) :
    find host path noParents = r ↔ Finds host path noParents r := by
  constructor
  · intro h
    rw [← h]
    exact finds_find habs hup
  · intro h
    exact find_of_finds habs hup h

/-- Separators that are doubled or at the end do not disturb the search. -/
theorem find_eq_iff_finds_doubledSeparator :
    isAbsolute "/r/b//c/" = true ∧ ".." ∉ descent "/r/b//c/" ∧
      find Host.inBranch "/r/b//c/" false = .ok "/r/Homestead.json" := by
  have habs : isAbsolute "/r/b//c/" = true := by decide
  have hup : ".." ∉ descent "/r/b//c/" := by decide
  have hnearer : ∀ nearer ∈ (descent "/r/b//c/").inits, ["r"] <+: nearer → nearer ≠ ["r"] →
      Host.inBranch.disk.settingsName? nearer = none := by
    decide +kernel
  have hnearest : Host.inBranch.disk.IsNearest (descent "/r/b//c/") (descent "/r") := by
    refine ⟨by decide +kernel, fun nearer hdown hne hwithin => ?_⟩
    exact hnearer nearer ((List.mem_inits _ _).mpr hwithin) hdown hne
  have hfinds : Finds Host.inBranch "/r/b//c/" false (.ok (join "/r" "Homestead.json")) :=
    .nearest (by decide +kernel) (by decide +kernel) hnearest (by decide +kernel) nofun
  exact ⟨habs, hup, (find_eq_iff_finds _ _ _ _ habs hup).mpr hfinds⟩

end Settings

end Provision
