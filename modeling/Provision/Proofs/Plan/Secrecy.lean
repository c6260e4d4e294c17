import Provision.Proofs.Plan.Failure

/-!
# Plans and the text of one file

What the text of one file has to do with a plan. Two hosts that differ in that text alone answer
every question about paths alike, except for what the file reads as; so there is a plan on both or
on neither, and the text stands in the plan as the first argument of the scripts for the keys that
lead to the file and nowhere else, whatever the spellings of the keys.
-/

namespace Provision

open Attempt

/-- Two hosts that differ in nothing but the text of the file at a location. -/
structure Host.DiffersAt (host other : Host) (file : Location) (text otherText : String) : Prop where
  home : host.home = other.home
  workingDirectory : host.workingDirectory = other.workingDirectory
  pwd : host.pwd = other.pwd
  text : host.disk.lookup? file = some (.file (some text))
  otherText : other.disk.lookup? file = some (.file (some otherText))
  elsewhere : ∀ location, location ≠ file →
    host.disk.lookup? location = other.disk.lookup? location

namespace Host

/-- Whether a path leads to a location. -/
def leadsTo (host : Host) (path : HostPath) (location : Location) : Bool :=
  (host.locate path).toOption == some location

/-- The text of the file a path leads to; empty when there is none. -/
def textAt (host : Host) (path : HostPath) : String :=
  match host.entryAt? path with
  | some (.file (some text)) => text
  | _ => ""

/-- The text at a path is that of the file it leads to. -/
theorem textAt_of_file {host : Host} {path : HostPath} {text : String}
    (h : host.entryAt? path = some (.file (some text))) : host.textAt path = text := by
  unfold textAt
  rw [h]

namespace DiffersAt

variable {host other : Host} {file : Location} {text otherText : String} {path : HostPath}

/-- At the file the two disks have a file each, and elsewhere they have the same. -/
theorem walk_eq (h : host.DiffersAt other file text otherText) (here : Location)
    (names : List String) : host.disk.walk here names = other.disk.walk here names := by
  have hsome : ∀ location, (host.disk.lookup? location).isSome =
      (other.disk.lookup? location).isSome := by
    intro location
    by_cases hlocation : location = file
    · rw [hlocation, h.text, h.otherText]
      rfl
    · rw [h.elsewhere location hlocation]
  induction names generalizing here with
  | nil => rfl
  | cons name names ih =>
    by_cases hhere : here = file
    · -- no step goes on from a file, whatever its text
      rw [hhere, Disk.walk, Disk.walk, h.text, h.otherText]
    · rw [Disk.walk, Disk.walk, h.elsewhere here hhere, hsome, ih, ih, ih]

/-- The text of a file has no part in where paths lead. -/
theorem locate_eq (h : host.DiffersAt other file text otherText) (path : HostPath) :
    host.locate path = other.locate path := by
  unfold locate
  rw [h.workingDirectory, h.walk_eq]

theorem leadsTo_eq (h : host.DiffersAt other file text otherText) (path : HostPath)
    (location : Location) : host.leadsTo path location = other.leadsTo path location := by
  unfold leadsTo
  rw [h.locate_eq]

theorem symm (h : host.DiffersAt other file text otherText) :
    other.DiffersAt host file otherText text where
  home := h.home.symm
  workingDirectory := h.workingDirectory.symm
  pwd := h.pwd.symm
  text := h.otherText
  otherText := h.text
  elsewhere location hne := (h.elsewhere location hne).symm

theorem entryAt?_of_leadsTo (h : host.DiffersAt other file text otherText)
    (hpath : host.leadsTo path file = true) : host.entryAt? path = some (.file (some text)) := by
  obtain ⟨location, hlocate, rfl⟩ : ∃ location, host.locate path = .ok location ∧
      location = file := by
    unfold leadsTo at hpath
    rcases hlocate : host.locate path with fault | location
    · rw [hlocate] at hpath
      cases hpath
    · rw [hlocate] at hpath
      exact ⟨location, rfl, Option.some.inj (beq_iff_eq.mp hpath)⟩
  exact entryAt?_eq_some_iff.mpr ⟨location, hlocate, h.text⟩

/-- Any other path sees the same on both hosts. -/
theorem entryAt?_of_not_leadsTo (h : host.DiffersAt other file text otherText)
    (hpath : ¬host.leadsTo path file = true) : host.entryAt? path = other.entryAt? path := by
  unfold entryAt?
  unfold leadsTo at hpath
  rw [h.locate_eq] at hpath ⊢
  rcases hlocate : other.locate path with fault | location
  · rfl
  · apply h.elsewhere location
    rintro rfl
    exact hpath (by rw [hlocate]; exact beq_self_eq_true _)

/-- Where the path leads to a readable file on one of the hosts, it does so on the other. -/
theorem entry_cases (h : host.DiffersAt other file text otherText) (path : HostPath) :
    (host.entryAt? path = some (.file (some text)) ∧
        other.entryAt? path = some (.file (some otherText))) ∨
      host.entryAt? path = other.entryAt? path := by
  by_cases hpath : host.leadsTo path file = true
  · have hother : other.leadsTo path file = true := h.leadsTo_eq path file ▸ hpath
    exact .inl ⟨h.entryAt?_of_leadsTo hpath, h.symm.entryAt?_of_leadsTo hother⟩
  · exact .inr (h.entryAt?_of_not_leadsTo hpath)

/-- Both hosts have the same regular files. -/
theorem hasFile_eq (h : host.DiffersAt other file text otherText) (path : HostPath) :
    host.hasFile path = other.hasFile path := by
  unfold hasFile
  rcases h.entry_cases path with ⟨hentry, hother⟩ | heq
  · rw [hentry, hother]
  · rw [heq]

/-- Both hosts have something at the same paths. -/
theorem hasEntry_eq (h : host.DiffersAt other file text otherText) (path : HostPath) :
    host.hasEntry path = other.hasEntry path := by
  unfold hasEntry
  rcases h.entry_cases path with ⟨hentry, hother⟩ | heq
  · rw [hentry, hother]
    rfl
  · rw [heq]

/-- Both hosts have the same unreadable files. -/
theorem hasUnreadable_eq (h : host.DiffersAt other file text otherText) (path : HostPath) :
    host.hasUnreadable path = other.hasUnreadable path := by
  unfold hasUnreadable
  rcases h.entry_cases path with ⟨hentry, hother⟩ | heq
  · rw [hentry, hother]
    rfl
  · rw [heq]

/-- Paths are expanded alike on both hosts. -/
theorem expand_eq (h : host.DiffersAt other file text otherText) (raw : String) (base : HostPath) :
    host.expand raw base = other.expand raw base := by
  unfold expand
  rw [h.home]

/-- The text at a path is that of the file where the path leads there, and otherwise the same on
both hosts. -/
theorem textAt_eq (h : host.DiffersAt other file text otherText) (path : HostPath) :
    host.textAt path = if host.leadsTo path file then text else other.textAt path := by
  by_cases hpath : host.leadsTo path file = true
  · rw [if_pos hpath]
    exact textAt_of_file (h.entryAt?_of_leadsTo hpath)
  · rw [if_neg hpath]
    unfold textAt
    rw [h.entryAt?_of_not_leadsTo hpath]

end DiffersAt

end Host

namespace Settings

variable {s : Settings} {host other : Host} {o : PlanOptions} {plan : Plan} {file : Location}
  {text otherText : String}

/-! ## The scripts for keys -/

/-- The directives for the public key, if it is a file, and for the private keys, with the texts of
the files as a function of their paths. -/
def keyDirectives (s : Settings) (host : Host) (o : PlanOptions) (textOf : HostPath → String) :
    List Directive :=
  ((s.authorize.toList.map (host.expand · o.base)).filter host.hasFile).map
      (fun path => .shell (authorizeShell (textOf path))) ++
    (s.keys.getD []).map fun raw => .shell (keyShell raw (textOf (host.expand raw o.base)))

/-- The public key is authorized with the text that its file has. -/
theorem planAuthorizedKey_eq_map {planned : List Directive}
    (h : s.planAuthorizedKey host o = .ok planned) :
    planned = ((s.authorize.toList.map (host.expand · o.base)).filter host.hasFile).map
      fun path => .shell (authorizeShell (host.textAt path)) := by
  rcases hset : s.authorize with _ | raw
  · rw [planAuthorizedKey, hset] at h
    exact (Except.ok.inj h).symm
  · rw [Option.toList_some, List.map_singleton, List.filter_singleton]
    by_cases hfile : host.hasFile (host.expand raw o.base) = true
    · rw [planAuthorizedKey_of_hasFile hset hfile, bind_eq_ok_iff] at h
      obtain ⟨key, hkey, hplanned⟩ := h
      rw [Host.mapError_readText_eq_ok_iff hfile] at hkey
      rw [hfile, cond_true, List.map_singleton, Host.textAt_of_file hkey]
      exact (Except.ok.inj hplanned).symm
    · rw [Bool.not_eq_true] at hfile
      have hnone : ∀ other ∈ s.authorize, host.hasFile (host.expand other o.base) = false := by
        intro other hother
        rw [hset] at hother
        cases hother
        exact hfile
      rw [planAuthorizedKey_of_forall_not hnone] at h
      rw [hfile, cond_false]
      exact (Except.ok.inj h).symm

/-- Each private key is copied with the text that its file has. -/
theorem planPrivateKeys_eq_map {planned : List Directive}
    (h : s.planPrivateKeys host o = .ok planned) :
    planned = (s.keys.getD []).map fun raw =>
      .shell (keyShell raw (host.textAt (host.expand raw o.base))) := by
  obtain ⟨-, hall⟩ := planPrivateKeys_eq_ok_iff.mp h
  clear h
  generalize s.keys.getD [] = keys at hall ⊢
  induction hall with
  | nil => rfl
  | cons hhead _ ih =>
    obtain ⟨key, hentry, rfl⟩ := hhead
    rw [List.map_cons, ih, Host.textAt_of_file hentry]

/-- The directives before those for keys depend on the settings alone. -/
def directivesBeforeKeys (s : Settings) : List Directive :=
  [planSsh, s.planMachine, s.planProvider, s.planPrimaryNetwork] ++ s.planNetworks ++ s.planForwards

/-- The directives after those for keys. -/
def directivesAfterKeys (s : Settings) (host : Host) (o : PlanOptions) : List Directive :=
  s.planCopies host o ++ s.planFolders host o ++ s.planSites o ++ s.planPrimaryService o ++
    s.planDatabases host o

/-- Only the directives about keys, in the middle of a plan, read files. -/
theorem directives_eq_around_keys (h : s.plan host o = .ok plan) :
    plan.directives = s.normalized.directivesBeforeKeys ++ s.keyDirectives host o host.textAt ++
      s.normalized.directivesAfterKeys host o := by
  obtain ⟨authorized, hauthorized, h⟩ := bind_eq_ok_iff.mp h
  obtain ⟨keys, hkeys, ⟨⟩⟩ := bind_eq_ok_iff.mp h
  -- normalizing changes neither kind of key
  have hpublic : authorized = _ := planAuthorizedKey_eq_map (s := s) hauthorized
  have hprivate : keys = _ := planPrivateKeys_eq_map (s := s) hkeys
  rw [keyDirectives, ← hpublic, ← hprivate]
  simp only [directivesBeforeKeys, directivesAfterKeys, List.append_assoc]

/-! ## Two hosts -/

/-- What follows the keys is the same on both hosts. -/
theorem directivesAfterKeys_congr (h : host.DiffersAt other file text otherText) (s : Settings) :
    s.directivesAfterKeys host o = s.directivesAfterKeys other o := by
  have hcopies : s.planCopies host o = s.planCopies other o := by
    unfold planCopies
    simp only [h.expand_eq]
  have hfolder : ∀ folder : Folder, folder.plan host o = folder.plan other o := by
    intro folder
    unfold Folder.plan
    rw [h.expand_eq, h.hasEntry_eq]
  have hfolders : s.planFolders host o = s.planFolders other o := by
    unfold planFolders
    rw [funext hfolder]
  have hdatabases : s.planDatabases host o = s.planDatabases other o := by
    unfold planDatabases
    rw [funext h.hasFile_eq]
  unfold directivesAfterKeys
  rw [hcopies, hfolders, hdatabases]

/-- The directives about keys depend on the hosts only through the texts. -/
theorem keyDirectives_congr (h : host.DiffersAt other file text otherText) (s : Settings)
    (textOf : HostPath → String) : s.keyDirectives host o textOf = s.keyDirectives other o textOf := by
  unfold keyDirectives
  simp only [h.expand_eq, funext h.hasFile_eq]

theorem length_keyDirectives (s : Settings) (host : Host) (o : PlanOptions)
    (textOf textOf' : HostPath → String) :
    (s.keyDirectives host o textOf).length = (s.keyDirectives host o textOf').length := by
  simp only [keyDirectives, List.length_append, List.length_map]

/-- A plan fails on both hosts with the same error or on neither. -/
theorem plan_eq_error_congr (h : host.DiffersAt other file text otherText) (s : Settings)
    (e : Error) : s.plan host o = .error e ↔ s.plan other o = .error e := by
  simp only [plan_eq_error_iff_keys, AuthorizeUnreadable, planAuthorizedKey_eq_error_iff,
    planPrivateKeys_eq_error_iff, h.expand_eq, h.hasFile_eq, h.hasUnreadable_eq]

/-- The text of a file stands in a plan only as the first argument of the scripts for the keys that
lead to the file. On two hosts that differ in that text alone there is no plan for the same reason,
or there are two plans, alike but for those arguments: each has the text of its host there. -/
theorem plan_of_differsAt (s : Settings) (o : PlanOptions) (host other : Host) (file : Location)
    (text otherText : String) (h : host.DiffersAt other file text otherText) :
    (∀ e, s.plan host o = .error e ↔ s.plan other o = .error e) ∧
      ∀ plan, s.plan host o = .ok plan → ∃ otherPlan, s.plan other o = .ok otherPlan ∧
        otherPlan.defaultProvider = plan.defaultProvider ∧
        otherPlan.directives.length = plan.directives.length ∧
        ∃ before after,
          plan.directives = before ++ s.keyDirectives host o
            (fun path => if host.leadsTo path file then text else host.textAt path) ++ after ∧
          otherPlan.directives = before ++ s.keyDirectives host o
            (fun path => if host.leadsTo path file then otherText else host.textAt path) ++ after := by
  refine ⟨plan_eq_error_congr h s, fun plan hplan => ?_⟩
  obtain ⟨otherPlan, hother⟩ : ∃ otherPlan, s.plan other o = .ok otherPlan := by
    apply exists_eq_ok_of_forall_ne_error
    intro e he
    rw [(plan_eq_error_congr h s e).mpr he] at hplan
    cases hplan
  have hprovider : otherPlan.defaultProvider = plan.defaultProvider := by
    obtain ⟨_, -, hplan⟩ := bind_eq_ok_iff.mp hplan
    obtain ⟨_, -, ⟨⟩⟩ := bind_eq_ok_iff.mp hplan
    obtain ⟨_, -, hother⟩ := bind_eq_ok_iff.mp hother
    obtain ⟨_, -, ⟨⟩⟩ := bind_eq_ok_iff.mp hother
    rfl
  -- both texts are those of the one host, but for the file
  have htext : host.textAt = fun path => if host.leadsTo path file then text else host.textAt path := by
    funext path
    by_cases hpath : host.leadsTo path file = true
    · rw [if_pos hpath]
      exact Host.textAt_of_file (h.entryAt?_of_leadsTo hpath)
    · rw [if_neg hpath]
  have hotherText : other.textAt =
      fun path => if host.leadsTo path file then otherText else host.textAt path := by
    funext path
    rw [h.symm.textAt_eq, h.leadsTo_eq]
  have hdirectives := directives_eq_around_keys hplan
  have hotherDirectives := directives_eq_around_keys hother
  rw [← keyDirectives_congr h, ← directivesAfterKeys_congr h] at hotherDirectives
  refine ⟨otherPlan, hother, hprovider, ?_, s.normalized.directivesBeforeKeys,
    s.normalized.directivesAfterKeys host o, ?_, ?_⟩
  · rw [hdirectives, hotherDirectives]
    simp only [List.length_append, length_keyDirectives s host o other.textAt host.textAt]
  · rw [← htext]
    exact hdirectives
  · rw [← hotherText]
    exact hotherDirectives

/-- Settings that spell one private key in two ways and log in with another file. -/
def oneKeyTwice : Settings :=
  { blank with
    authorize := some "id.pub"
    keys := some ["id", "/p/./scripts/../id", "id.pub"] }

end Settings

/-- A project with a public and a private key. -/
def Host.withKey (text : String) : Host where
  disk := ⟨[(["p"], .directory), (["p", "id.pub"], .file (some "ssh-rsa AAAA")),
    (["p", "id"], .file (some text)), (["p", "scripts"], .directory)]⟩
  home := "/home"
  workingDirectory := []
  pwd := none

/-- Two hosts with different texts in the same key file differ there only. -/
theorem Host.differsAt_withKey (text otherText : String) :
    (withKey text).DiffersAt (withKey otherText) ["p", "id"] text otherText where
  home := rfl
  workingDirectory := rfl
  pwd := rfl
  text := rfl
  otherText := rfl
  elsewhere location hne := by
    rcases location with _ | ⟨name, rest⟩
    · rfl
    · have hkey : ((name :: rest) == ["p", "id"]) = false := beq_eq_false_iff_ne.mpr hne
      show List.lookup _ _ = List.lookup _ _
      simp only [withKey, List.lookup_cons, hkey]

/-- A key that is named twice shows twice in the plan, and nowhere else. -/
theorem Settings.plan_of_differsAt_oneKeyTwice : ∃ plan otherPlan before after,
    (Host.withKey "OLD").DiffersAt (Host.withKey "NEW") ["p", "id"] "OLD" "NEW" ∧
      oneKeyTwice.plan (Host.withKey "OLD") (.of "/p" "/p/scripts") = .ok plan ∧
      oneKeyTwice.plan (Host.withKey "NEW") (.of "/p" "/p/scripts") = .ok otherPlan ∧
      plan.directives = before ++ [.shell (authorizeShell "ssh-rsa AAAA"),
        .shell (keyShell "id" "OLD"), .shell (keyShell "/p/./scripts/../id" "OLD"),
        .shell (keyShell "id.pub" "ssh-rsa AAAA")] ++ after ∧
      otherPlan.directives = before ++ [.shell (authorizeShell "ssh-rsa AAAA"),
        .shell (keyShell "id" "NEW"), .shell (keyShell "/p/./scripts/../id" "NEW"),
        .shell (keyShell "id.pub" "ssh-rsa AAAA")] ++ after := by
  have hdiffers := Host.differsAt_withKey "OLD" "NEW"
  have hok : (oneKeyTwice.plan (Host.withKey "OLD") (.of "/p" "/p/scripts")).isOk = true := by
    decide +kernel
  obtain ⟨plan, hplan⟩ := exists_eq_ok_of_isOk hok
  obtain ⟨otherPlan, hother, -, -, before, after, hdirectives, hotherDirectives⟩ :=
    (plan_of_differsAt oneKeyTwice _ _ _ _ _ _ hdiffers).2 plan hplan
  exact ⟨plan, otherPlan, before, after, hdiffers, hplan, hother, hdirectives, hotherDirectives⟩

end Provision
