import Mathlib.Logic.Function.Basic
import Provision.Proofs.Host.LastName
import Provision.Proofs.Plan.Keys

/-!
# Private keys in the guest

Where the private keys are after the directives for them have run. Each directive writes one file,
directly in the directory for keys and under the name the key has on the host. The directories the
keys come from do not matter there, so of several keys with one name only the last one is left.
-/

namespace Provision

open Attempt HostPath

/-! ## What a directive writes -/

/-- The files of the guest, by path. -/
abbrev GuestFiles := String → Option String

/-- Where the guest keeps its keys. -/
def keyDirectory : String := "/home/vagrant/.ssh"

/-- The file of a key. -/
def guestKeyPath (name : String) : String :=
  keyDirectory ++ "/" ++ name

/-- The script for private keys writes its first argument to the file that its second one names,
which it keeps from others. -/
theorem privateKeyScript_eq : Settings.privateKeyScript =
    "echo \"$1\" > " ++ guestKeyPath "$2" ++ " && chmod 600 " ++ guestKeyPath "$2" := by decide

/-- The file that a script for private keys writes, and the text that it has then. -/
def Shell.keyWrite? (shell : Shell) : Option (String × String) :=
  match shell.source, shell.args with
  | .inline body, [key, name] =>
    if body = "echo \"$1\" > " ++ guestKeyPath "$2" ++ " && chmod 600 " ++ guestKeyPath "$2" then
      some (guestKeyPath name, key)
    else none
  | _, _ => none

/-- The path of a key that a directive writes, and its text. -/
def Directive.keyWrite? : Directive → Option (String × String)
  | .shell script => script.keyWrite?
  | _ => none

/-- The files after the keys of some directives were written in order. -/
def keysAfter (directives : List Directive) (files : GuestFiles) : GuestFiles :=
  (directives.filterMap Directive.keyWrite?).foldl
    (fun files write => Function.update files write.1 (some write.2)) files

section Updates

variable {α : Type} {path : String}

/-- A file that is not written stays as it is. -/
theorem foldl_update_of_forall_ne (target : α → String) (text : α → Option String) {writes : List α}
    (files : GuestFiles) (h : ∀ write ∈ writes, target write ≠ path) :
    writes.foldl (fun files write => Function.update files (target write) (text write)) files path =
      files path := by
  induction writes generalizing files with
  | nil => rfl
  | cons write writes ih =>
    have hfirst : path ≠ target write := (h write List.mem_cons_self).symm
    rw [List.foldl_cons, ih _ fun other hother => h other (List.mem_cons_of_mem write hother),
      Function.update_of_ne hfirst]

/-- A file has the text that was written to it last. -/
theorem foldl_update_of_last (target : α → String) (text : α → Option String) (before : List α)
    (write : α) {after : List α} (files : GuestFiles)
    (h : ∀ other ∈ after, target other ≠ target write) :
    (before ++ write :: after).foldl
      (fun files write => Function.update files (target write) (text write)) files (target write) =
      text write := by
  rw [List.foldl_append, List.foldl_cons, foldl_update_of_forall_ne target text _ h,
    Function.update_self]

end Updates

/-- Keys with different names are different files. -/
theorem guestKeyPath_inj {first second : String} :
    guestKeyPath first = guestKeyPath second ↔ first = second :=
  String.append_right_inj _

/-- The file of a key is directly in the directory for keys. -/
theorem components_guestKeyPath {name : String} (hname : IsName name) :
    components (guestKeyPath name) = components keyDirectory ++ [name.toList] := by
  have hjoin : guestKeyPath name = join keyDirectory name := by
    unfold join
    rw [hname.not_isAbsolute]
    rfl
  rw [hjoin, components_join_name _ hname]

namespace Settings

variable {s : Settings} {host : Host} {o : PlanOptions} {planned : List Directive}

/-! ## Names of keys -/

/-- Whether a script copies the file at a path of the host to the guest, under the name it has. -/
structure CopiesKey (host : Host) (path : HostPath) (shell : Shell) (name : String) : Prop where
  source : shell.source =
    .inline "echo \"$1\" > /home/vagrant/.ssh/$2 && chmod 600 /home/vagrant/.ssh/$2"
  args : ∃ key, host.readText path = .ok key ∧ shell.args = [key, name]
  isName : IsName name
  inDirectory : components (guestKeyPath name) = components keyDirectory ++ [name.toList]
  lastComponent : (components path).getLast? = some name.toList
  location : ∃ directory, host.locate path = .ok (directory ++ [name])

/-- Every private key that is planned is copied to a file directly in the directory for keys, and
its name there is the last component of the path it was read from, however that path is written.
A relative path is safe as well, since only directories are above a working directory. -/
theorem copiesKey_of_planPrivateKeys (s : Settings) (host : Host) (o : PlanOptions)
    (planned : List Directive) (hparents : host.disk.HasParents host.workingDirectory)
    (h : s.planPrivateKeys host o = .ok planned) :
    List.Forall₂ (fun raw d => ∃ shell name, d = .shell shell ∧
      CopiesKey host (host.expand raw o.base) shell name) (s.keys.getD []) planned := by
  obtain ⟨-, hplanned⟩ := planPrivateKeys_eq_ok_iff.mp h
  refine hplanned.imp fun raw d hcopy => ?_
  obtain ⟨key, hentry, hd⟩ := hcopy
  obtain ⟨hname, hlast, hlocation⟩ := Host.writtenName_of_file hparents hentry
  have hread : host.readText (host.expand raw o.base) = .ok key := Host.readText_of_file hentry
  exact ⟨keyShell raw key, writtenName raw, hd, rfl, ⟨key, hread, rfl⟩, hname,
    components_guestKeyPath hname, hlast, hlocation⟩

end Settings

/-- A home directory, and a project with keys in two directories, two of them with the same name. -/
def Host.withKeys : Host where
  disk := ⟨[(["h"], .directory), (["p"], .directory), (["p", "a"], .directory),
    (["p", "a", "id"], .file (some "A")), (["p", "b"], .directory),
    (["p", "b", "id"], .file (some "B")), (["p", "b", "work"], .file (some "C"))]⟩
  home := "/h"
  workingDirectory := ["p"]
  pwd := none

namespace Settings

/-- Dots and doubled separators on the way to a key are not in its name. -/
theorem copiesKey_of_planPrivateKeys_spellings :
    Host.withKeys.disk.HasParents Host.withKeys.workingDirectory ∧
      Settings.planPrivateKeys { blank with keys := some ["~/../p//a/id", "b/./work"] }
        Host.withKeys (.of "/p" "/p/scripts") =
          .ok [.shell (keyShell "~/../p//a/id" "A"), .shell (keyShell "b/./work" "C")] ∧
      CopiesKey Host.withKeys "/h/../p//a/id" (keyShell "~/../p//a/id" "A") "id" ∧
      CopiesKey Host.withKeys "/p/b/./work" (keyShell "b/./work" "C") "work" := by
  have hparents : Host.withKeys.disk.HasParents Host.withKeys.workingDirectory := by decide
  have hplanned : Settings.planPrivateKeys
      { blank with keys := some ["~/../p//a/id", "b/./work"] } Host.withKeys (.of "/p" "/p/scripts") =
        .ok [.shell (keyShell "~/../p//a/id" "A"), .shell (keyShell "b/./work" "C")] := by
    rfl
  have hcopies := copiesKey_of_planPrivateKeys _ _ _ _ hparents hplanned
  obtain ⟨⟨first, name, hfirst, hcopy⟩, hothers⟩ := List.forall₂_cons.mp hcopies
  obtain ⟨⟨second, other, hsecond, hcopy'⟩, -⟩ := List.forall₂_cons.mp hothers
  cases hfirst
  cases hsecond
  obtain ⟨key, -, hargs⟩ := hcopy.args
  obtain ⟨key', -, hargs'⟩ := hcopy'.args
  cases hargs
  cases hargs'
  exact ⟨hparents, hplanned, hcopy, hcopy'⟩

/-! ## Keys that are left -/

/-- The text of the file that a private key is read from. -/
def keyText? (host : Host) (o : PlanOptions) (raw : String) : Option String :=
  (host.readText (host.expand raw o.base)).toOption

/-- Each planned key is written under the name in its setting. -/
theorem keysAfter_planned {keys : List String} (h : List.Forall₂ (fun raw d => ∃ key,
      host.entryAt? (host.expand raw o.base) = some (.file (some key)) ∧
        d = .shell (keyShell raw key)) keys planned) (files : GuestFiles) :
    keysAfter planned files =
      keys.foldl (fun files raw =>
        Function.update files (guestKeyPath (writtenName raw)) (keyText? host o raw)) files := by
  unfold keysAfter
  induction h generalizing files with
  | nil => rfl
  | @cons raw d keys planned hcopy _ ih =>
    obtain ⟨key, hentry, rfl⟩ := hcopy
    have hwrite : (Directive.shell (keyShell raw key)).keyWrite? =
        some (guestKeyPath (writtenName raw), key) := by
      unfold Directive.keyWrite? Shell.keyWrite? keyShell
      dsimp only
      exact if_pos privateKeyScript_eq
    have htext : keyText? host o raw = some key := by
      unfold keyText?
      rw [Host.readText_eq_ok_iff.mpr hentry]
      rfl
    rw [List.filterMap_cons_some hwrite, List.foldl_cons, List.foldl_cons, ih, htext]

/-- Among the keys with one name there is a last one. -/
theorem exists_last_writtenName {keys : List String} {raw : String} (h : raw ∈ keys) :
    ∃ before last after, keys = before ++ last :: after ∧ writtenName last = writtenName raw ∧
      ∀ other ∈ after, writtenName other ≠ writtenName raw := by
  induction keys using List.reverseRecOn with
  | nil => cases h
  | append_singleton keys last ih =>
    by_cases hlast : writtenName last = writtenName raw
    · exact ⟨keys, last, [], rfl, hlast, nofun⟩
    · have hmem : raw ∈ keys := by
        rcases List.mem_append.mp h with hmem | hmem
        · exact hmem
        · rw [List.mem_singleton.mp hmem] at hlast
          exact absurd rfl hlast
      obtain ⟨before, found, after, rfl, hfound, hafter⟩ := ih hmem
      refine ⟨before, found, after ++ [last], by simp, hfound, ?_⟩
      intro other hother
      rcases List.mem_append.mp hother with hother | hother
      · exact hafter other hother
      · rwa [List.mem_singleton.mp hother]

/-- Keys that can all be read are planned. When the directives have run, the last key with a name is
in the file of this name, and no other file has changed. So all keys are left exactly if those that
share a name have the same text. -/
theorem keysAfter_planPrivateKeys (s : Settings) (host : Host) (o : PlanOptions)
    (keys : List String) (files : GuestFiles) (hset : s.keys = some keys) (hne : keys ≠ [])
    (hread : ∀ raw ∈ keys, ∃ key, host.readText (host.expand raw o.base) = .ok key) :
    ∃ planned, s.planPrivateKeys host o = .ok planned ∧
      (∀ before raw after, keys = before ++ raw :: after →
        (∀ other ∈ after, writtenName other ≠ writtenName raw) →
          keysAfter planned files (guestKeyPath (writtenName raw)) = keyText? host o raw) ∧
      (∀ path, (∀ raw ∈ keys, guestKeyPath (writtenName raw) ≠ path) →
        keysAfter planned files path = files path) ∧
      ((∀ raw ∈ keys,
          keysAfter planned files (guestKeyPath (writtenName raw)) = keyText? host o raw) ↔
        ∀ raw ∈ keys, ∀ other ∈ keys, writtenName raw = writtenName other →
          keyText? host o raw = keyText? host o other) := by
  -- a list with something in it, of keys that can all be read, leaves nothing to fail on
  obtain ⟨planned, hplanned⟩ : ∃ planned, s.planPrivateKeys host o = .ok planned := by
    refine ⟨keys.map fun raw => .shell (keyShell raw ((keyText? host o raw).getD "")), ?_⟩
    refine planPrivateKeys_eq_ok_iff.mpr ⟨?_, ?_⟩
    · rw [hset]
      exact fun h => hne (Option.some.inj h)
    · rw [hset, Option.getD_some, List.forall₂_map_right_iff, List.forall₂_same]
      intro raw hraw
      obtain ⟨key, hkey⟩ := hread raw hraw
      refine ⟨key, Host.readText_eq_ok_iff.mp hkey, ?_⟩
      unfold keyText?
      rw [hkey]
      rfl
  have hcopies := (planPrivateKeys_eq_ok_iff.mp hplanned).2
  rw [hset, Option.getD_some] at hcopies
  have hafter := keysAfter_planned hcopies files
  have hlast : ∀ before raw after, keys = before ++ raw :: after →
      (∀ other ∈ after, writtenName other ≠ writtenName raw) →
        keysAfter planned files (guestKeyPath (writtenName raw)) = keyText? host o raw := by
    intro before raw after hkeys hlater
    have hpaths : ∀ other ∈ after,
        guestKeyPath (writtenName other) ≠ guestKeyPath (writtenName raw) := fun other hother h =>
      hlater other hother (guestKeyPath_inj.mp h)
    rw [hafter, hkeys]
    exact foldl_update_of_last (fun raw => guestKeyPath (writtenName raw)) (keyText? host o) before
      raw files hpaths
  refine ⟨planned, hplanned, hlast, ?_, ?_, ?_⟩
  · intro path hpath
    rw [hafter]
    exact foldl_update_of_forall_ne (fun raw => guestKeyPath (writtenName raw)) (keyText? host o)
      files hpath
  -- keys of one name are both what is left in the one file of that name
  · intro hleft raw hraw other hother hname
    rw [← hleft raw hraw, hname, hleft other hother]
  -- what is left under a name is the last key of that name
  · intro hsame raw hraw
    obtain ⟨before, last, after, hkeys, hname, hlater⟩ := exists_last_writtenName hraw
    have hmem : last ∈ keys := by
      rw [hkeys]
      simp
    rw [← hname] at hlater ⊢
    rw [hlast before last after hkeys hlater]
    exact hsame last hmem raw hraw hname

/-- Keys with two names are both in the guest afterwards. -/
theorem keysAfter_planPrivateKeys_distinct : ∃ planned,
    Settings.planPrivateKeys { blank with keys := some ["a/id", "b/work"] } Host.withKeys
        (.of "/p" "/p/scripts") = .ok planned ∧
      keysAfter planned (fun _ => none) (guestKeyPath "id") = some "A" ∧
      keysAfter planned (fun _ => none) (guestKeyPath "work") = some "C" := by
  have hread : ∀ raw ∈ ["a/id", "b/work"], ∃ key, Host.withKeys.readText
      (Host.withKeys.expand raw (PlanOptions.of "/p" "/p/scripts").base) = .ok key := by
    intro raw hraw
    rcases List.mem_pair.mp hraw with rfl | rfl
    · exact ⟨"A", by rfl⟩
    · exact ⟨"C", by rfl⟩
  obtain ⟨planned, hplanned, -, -, hleft⟩ := keysAfter_planPrivateKeys
    { blank with keys := some ["a/id", "b/work"] } Host.withKeys (.of "/p" "/p/scripts")
    ["a/id", "b/work"] (fun _ => none) rfl (by decide) hread
  have hnames : ∀ raw ∈ ["a/id", "b/work"], ∀ other ∈ ["a/id", "b/work"],
      writtenName raw = writtenName other → raw = other := by
    decide
  have hall := hleft.mpr fun raw hraw other hother hname => by rw [hnames raw hraw other hother hname]
  exact ⟨planned, hplanned, hall "a/id" (by decide), hall "b/work" (by decide)⟩

/-- Two keys from different directories can have one name, and then the first one is lost. -/
theorem keysAfter_planPrivateKeys_sameName :
    Host.withKeys.locate (Host.withKeys.expand "a/id" "/p") = .ok ["p", "a", "id"] ∧
      Host.withKeys.locate (Host.withKeys.expand "b/id" "/p") = .ok ["p", "b", "id"] ∧
      Host.withKeys.readText (Host.withKeys.expand "a/id" "/p") = .ok "A" ∧
      Host.withKeys.readText (Host.withKeys.expand "b/id" "/p") = .ok "B" ∧
      ∃ planned, Settings.planPrivateKeys { blank with keys := some ["a/id", "b/id"] } Host.withKeys
          (.of "/p" "/p/scripts") = .ok planned ∧
        keysAfter planned (fun _ => none) (guestKeyPath "id") = some "B" ∧
        ∀ path, keysAfter planned (fun _ => none) path ≠ some "A" := by
  refine ⟨by rfl, by rfl, by rfl, by rfl,
    [.shell (keyShell "a/id" "A"), .shell (keyShell "b/id" "B")], by rfl, by rfl, fun path => ?_⟩
  have hafter : keysAfter [.shell (keyShell "a/id" "A"), .shell (keyShell "b/id" "B")]
      (fun _ => none) = Function.update (fun _ => none) (guestKeyPath "id") (some "B") :=
    Function.update_idem _ _ _
  by_cases hpath : path = guestKeyPath "id"
  · rw [hafter, hpath, Function.update_self]
    decide
  · rw [hafter, Function.update_of_ne hpath]
    exact nofun

end Settings

end Provision
