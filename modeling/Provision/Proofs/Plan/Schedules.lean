import Mathlib.Data.List.Induction
import Mathlib.Data.List.Nodup
import Mathlib.Data.Set.Insert
import Provision.Proofs.Plan.Scripts

/-!
# The schedules a plan leaves

Every site of a plan installs a schedule or removes one, under a name made of the letters and digits
of its host name; nothing else in a plan is about schedules. So running a plan leaves the schedule
of a name as the last site with this name has it. Host names that differ in other characters only
share one schedule: of two such sites one can remove what the other one installs.
-/

namespace Provision

open Attempt HostPath

/-! ## What a directive does to the schedules -/

/-- A change of the schedules in the guest. -/
inductive ScheduleStep
  | install (name : String)
  | remove (name : String)
deriving DecidableEq, Repr

namespace ScheduleStep

/-- The name of the schedule that changes. -/
def name : ScheduleStep → String
  | install name => name
  | remove name => name

/-- The names of the schedules after the change, from those before. -/
def apply : ScheduleStep → Set String → Set String
  | install name, names => insert name names
  | remove name, names => names \ {name}

end ScheduleStep

/-- Where the guest keeps its schedules. -/
def scheduleDirectory : String := "/etc/cron.d"

/-- The file of a schedule. -/
def scheduleFile (name : String) : String :=
  scheduleDirectory ++ "/" ++ name

/-- The removal deletes the file of the schedule that its argument names. -/
theorem removeScheduleScript_eq : removeScheduleScript = "rm -f " ++ scheduleFile "$1" := by decide

/-- The script for schedules, right below the root, installs the one named by its first argument,
and the removal deletes the one named by its own. -/
def Shell.scheduleStep? (shell : Shell) (root : ScriptsRoot) : Option ScheduleStep :=
  match shell.source with
  | .path path =>
    if components path = components root.path ++ ["cron-schedule.sh".toList] then
      shell.args.head?.map .install
    else none
  | .inline body =>
    if body = "rm -f " ++ scheduleFile "$1" then shell.args.head?.map .remove else none

/-- The change that a directive makes, given where the scripts are. -/
def Directive.scheduleStep? (root : ScriptsRoot) : Directive → Option ScheduleStep
  | .shell script => script.scheduleStep? root
  | _ => none

/-- The changes that directives make, in order. -/
def scheduleSteps (root : ScriptsRoot) (directives : List Directive) : List ScheduleStep :=
  directives.filterMap (Directive.scheduleStep? root)

/-- The names of the schedules after directives have run in order, from those before. -/
def schedulesAfter (root : ScriptsRoot) (directives : List Directive) (names : Set String) :
    Set String :=
  (scheduleSteps root directives).foldl (fun names step => step.apply names) names

namespace Directive

variable {root : ScriptsRoot} {shell : Shell}

/-- What a script file changes depends on where it is. -/
theorem scheduleStep?_of_path {path : HostPath} (hsource : shell.source = .path path) :
    (Directive.shell shell).scheduleStep? root =
      if components path = components root.cronSchedule then shell.args.head?.map .install
      else none := by
  show shell.scheduleStep? root = _
  rw [Shell.scheduleStep?, hsource, root.components_cronSchedule]

/-- What a script given as text changes depends on the text. -/
theorem scheduleStep?_of_inline {body : String} (hsource : shell.source = .inline body) :
    (Directive.shell shell).scheduleStep? root =
      if body = removeScheduleScript then shell.args.head?.map .remove else none := by
  show shell.scheduleStep? root = _
  rw [Shell.scheduleStep?, hsource, removeScheduleScript_eq]

/-- A script file other than the one for schedules changes none. -/
theorem scheduleStep?_of_ne {path : HostPath} (hsource : shell.source = .path path)
    (hne : components path ≠ components root.cronSchedule) :
    (Directive.shell shell).scheduleStep? root = none := by
  rw [scheduleStep?_of_path hsource, if_neg hne]

/-- The scripts about keys and folders leave the schedules alone. -/
theorem RunsInline.scheduleStep?_eq_none {d : Directive} (h : d.RunsInline) :
    d.scheduleStep? root = none := by
  have hothers : ∀ body ∈ inlineScripts, body ≠ removeScheduleScript := by decide
  cases d with
  | shell shell =>
    obtain ⟨body, hbody, hsource⟩ := h shell rfl
    rw [scheduleStep?_of_inline hsource, if_neg (hothers body hbody)]
  | _ => rfl

end Directive

/-! ## The change a site makes -/

namespace Site

/-- What a site asks for: its schedule, or that there is none. -/
def scheduleStep (site : Site) : ScheduleStep :=
  if site.schedule = some true then .install site.scheduleName
  else .remove site.scheduleName

variable (site : Site) (o : PlanOptions)

/-- A site changes the schedule of its own name, whichever way. -/
theorem name_scheduleStep : site.scheduleStep.name = site.scheduleName := by
  unfold scheduleStep
  split <;> rfl

/-- A server script is never the one for schedules. -/
theorem scheduleStep?_planSetup : (site.planSetup o).scheduleStep? o.scripts = none := by
  unfold planSetup
  exact Directive.scheduleStep?_of_ne rfl (o.scripts.components_siteScript_ne _)

/-- The second script of a site makes the change the site asks for. -/
theorem scheduleStep?_planSchedule :
    (site.planSchedule o).scheduleStep? o.scripts = some site.scheduleStep := by
  unfold planSchedule scheduleStep
  rcases site.schedule with _ | _ | _
  · exact (Directive.scheduleStep?_of_inline rfl).trans (if_pos rfl)
  · exact (Directive.scheduleStep?_of_inline rfl).trans (if_pos rfl)
  · exact (Directive.scheduleStep?_of_path rfl).trans (if_pos rfl)

/-- A site settles the schedule of its own name and leaves every other one as it is. -/
theorem mem_apply_scheduleStep_iff {names : Set String} {name : String} :
    name ∈ site.scheduleStep.apply names ↔
      if site.scheduleName = name then site.schedule = some true else name ∈ names := by
  unfold scheduleStep
  by_cases hown : site.scheduleName = name
  · rw [if_pos hown, hown]
    by_cases hschedule : site.schedule = some true
    · rw [if_pos hschedule]
      exact iff_of_true (Set.mem_insert name names) hschedule
    · rw [if_neg hschedule]
      exact iff_of_false (fun h => h.2 rfl) hschedule
  · have hne : name ≠ site.scheduleName := fun h => hown h.symm
    rw [if_neg hown]
    split
    · exact Set.mem_insert_iff.trans (or_iff_right hne)
    · exact and_iff_left hne

end Site

/-! ## The changes a plan makes -/

namespace Settings

variable {s : Settings} {host : Host} {o : PlanOptions} {plan : Plan}

theorem scheduleSteps_planSites (s : Settings) (o : PlanOptions) :
    scheduleSteps o.scripts (s.planSites o) = s.sites.map Site.scheduleStep := by
  unfold scheduleSteps planSites
  rw [List.filterMap_flatMap, List.map_eq_flatMap]
  refine List.flatMap_congr fun site _ => ?_
  rw [List.filterMap_cons_none (site.scheduleStep?_planSetup o),
    List.filterMap_cons_some (site.scheduleStep?_planSchedule o), List.filterMap_nil]

/-- Normalizing does not change what sites ask for. -/
theorem scheduleSteps_planSites_normalized (s : Settings) (o : PlanOptions) :
    scheduleSteps o.scripts (s.normalized.planSites o) = s.sites.map Site.scheduleStep := by
  rw [scheduleSteps_planSites]
  exact List.map_map

/-- The only changes in a plan are those its sites ask for. -/
theorem scheduleSteps_of_plan (h : s.plan host o = .ok plan) :
    scheduleSteps o.scripts plan.directives = s.sites.map Site.scheduleStep := by
  obtain ⟨before, hdirectives, hbefore⟩ := exists_directives h
  have hfirst : scheduleSteps o.scripts before = [] := by
    refine List.filterMap_eq_nil_iff.mpr fun d hd => ?_
    exact (hbefore d hd).scheduleStep?_eq_none
  -- the service and the databases run scripts of the layout, but none that touches a schedule
  have hservice : scheduleSteps o.scripts (s.planPrimaryService o) = [] := by
    refine List.filterMap_eq_nil_iff.mpr fun d hd => ?_
    rcases eq_of_mem_planPrimaryService hd with rfl | rfl
    · exact Directive.scheduleStep?_of_ne rfl (o.scripts.components_clearSiteScript_ne "nginx")
    · exact Directive.scheduleStep?_of_ne rfl (o.scripts.components_installScript_ne "apache")
  have hdatabases : scheduleSteps o.scripts (s.planDatabases host o) = [] := by
    refine List.filterMap_eq_nil_iff.mpr fun d hd => ?_
    obtain ⟨system, -, -, rfl⟩ := mem_planDatabases_iff.mp hd
    exact Directive.scheduleStep?_of_ne rfl (o.scripts.components_installScript_ne system)
  have happend : ∀ a b, scheduleSteps o.scripts (a ++ b) =
      scheduleSteps o.scripts a ++ scheduleSteps o.scripts b := fun _ _ => List.filterMap_append
  rw [hdirectives, happend, happend, happend, hfirst, hservice, hdatabases,
    scheduleSteps_planSites_normalized, List.nil_append, List.append_nil, List.append_nil]

/-! ## What is left after a run -/

/-- The last site whose schedule has this name. -/
def lastNamed? (sites : List Site) (name : String) : Option Site :=
  (sites.filter fun site => site.scheduleName = name).getLast?

/-- One more site is the last one with its name. -/
theorem lastNamed?_concat (sites : List Site) (site : Site) (name : String) :
    lastNamed? (sites ++ [site]) name =
      if site.scheduleName = name then some site else lastNamed? sites name := by
  unfold lastNamed?
  rw [List.filter_append, List.filter_singleton]
  by_cases hown : site.scheduleName = name
  · rw [decide_eq_true hown, cond_true, if_pos hown, List.getLast?_concat]
  · rw [decide_eq_false hown, cond_false, if_neg hown, List.append_nil]

/-- There is no last site with a name exactly if no site has it. -/
theorem lastNamed?_eq_none_iff {sites : List Site} {name : String} :
    lastNamed? sites name = none ↔ ∀ site ∈ sites, site.scheduleName ≠ name := by
  unfold lastNamed?
  rw [List.getLast?_eq_none_iff, List.filter_eq_nil_iff]
  simp only [decide_eq_true_eq, ne_eq]

/-- After the changes of sites, the last one with a name decides whether there is a schedule of this
name; without such a site nothing changes about it. -/
theorem mem_foldl_scheduleStep_iff (sites : List Site) (names : Set String) (name : String) :
    name ∈ (sites.map Site.scheduleStep).foldl (fun names step => step.apply names) names ↔
      (lastNamed? sites name).elim (name ∈ names) (·.schedule = some true) := by
  induction sites using List.reverseRecOn with
  | nil => rfl
  | append_singleton sites site ih =>
    rw [List.map_append, List.foldl_append, lastNamed?_concat]
    -- the last site is the last one to settle its own name
    refine site.mem_apply_scheduleStep_iff.trans ?_
    by_cases hown : site.scheduleName = name
    · rw [if_pos hown, if_pos hown]
      rfl
    · rw [if_neg hown, if_neg hown]
      exact ih

/-! ## Where schedules are -/

/-- The name of a schedule is made of letters and digits. -/
theorem isAlphanum_of_mem_scheduleName {site : Site} {c : Char}
    (hc : c ∈ site.scheduleName.toList) : c.isAlphanum = true := by
  unfold Site.scheduleName at hc
  rw [String.toList_ofList] at hc
  exact (List.mem_filter.mp hc).2

/-- Letters and digits make no step upwards and no separator, so the file of a schedule is directly
in the directory of the schedules; with no letter at all, its path is that of the directory. -/
theorem components_scheduleFile {name : String} (h : ∀ c ∈ name.toList, c.isAlphanum = true) :
    components (scheduleFile name) =
      components scheduleDirectory ++ if name = "" then [] else [name.toList] := by
  by_cases hempty : name = ""
  · rw [hempty]
    decide
  -- neither a separator nor a dot is alphanumeric
  · have hmark : ∀ c, c.isAlphanum = false → c ∉ name.toList := by
      intro c hc hmem
      rw [h c hmem] at hc
      cases hc
    have hname : IsName name := by
      refine ⟨hempty, ?_, ?_, hmark '/' (by decide)⟩
      · rintro rfl
        exact hmark '.' (by decide) (by decide)
      · rintro rfl
        exact hmark '.' (by decide) (by decide)
    have hjoin : scheduleFile name = join scheduleDirectory name := by
      unfold join
      rw [hname.not_isAbsolute]
      rfl
    rw [if_neg hempty, hjoin, components_join_name _ hname]

/-- After the sites of a plan there is a schedule under a name exactly if the last site with this
name has one, or no site has the name and there was one before. Every name is made of ASCII letters
and digits, so that its file is in the directory of the schedules. The rest of a plan changes no
schedule. -/
theorem mem_schedulesAfter_iff (s : Settings) (o : PlanOptions) (names : Set String) :
    (∀ name, name ∈ schedulesAfter o.scripts (s.planSites o) names ↔
        (∃ site, lastNamed? s.sites name = some site ∧ site.schedule = some true) ∨
          (∀ site ∈ s.sites, site.scheduleName ≠ name) ∧ name ∈ names) ∧
      (∀ step ∈ scheduleSteps o.scripts (s.planSites o),
        (∀ c ∈ step.name.toList, c.isAlphanum = true) ∧
          components (scheduleFile step.name) = components scheduleDirectory ++
            if step.name = "" then [] else [step.name.toList]) ∧
      ∀ host plan, s.plan host o = .ok plan →
        schedulesAfter o.scripts plan.directives names =
          schedulesAfter o.scripts (s.planSites o) names := by
  refine ⟨?_, ?_, ?_⟩
  · intro name
    unfold schedulesAfter
    rw [scheduleSteps_planSites, mem_foldl_scheduleStep_iff, ← lastNamed?_eq_none_iff]
    rcases lastNamed? s.sites name with _ | site
    · simp
    · simp
  · intro step hstep
    rw [scheduleSteps_planSites] at hstep
    obtain ⟨site, -, rfl⟩ := List.mem_map.mp hstep
    have hname : ∀ c ∈ site.scheduleStep.name.toList, c.isAlphanum = true := by
      intro c hc
      rw [site.name_scheduleStep] at hc
      exact isAlphanum_of_mem_scheduleName hc
    exact ⟨hname, components_scheduleFile hname⟩
  · intro host plan h
    unfold schedulesAfter
    rw [scheduleSteps_of_plan h, scheduleSteps_planSites]

/-- Settings with a site that has a schedule, and after it one that has none. -/
def twoSites (second : String) : Settings :=
  { blank with
    sites := [⟨"a.test", some "/srv/a", none, none, none, none, some true⟩,
      ⟨second, some "/srv/b", none, none, none, none, none⟩] }

/-- The second of two sites with one name removes the schedule, and others stay. -/
theorem mem_schedulesAfter_alike : ∃ plan,
    (twoSites "a-test").plan Host.furnished (.of "/p" "/p/scripts") = .ok plan ∧
      ∀ names, "old" ∈ names →
        "atest" ∉ schedulesAfter (PlanOptions.of "/p" "/p/scripts").scripts plan.directives names ∧
          "old" ∈ schedulesAfter (PlanOptions.of "/p" "/p/scripts").scripts plan.directives names := by
  have hok : ((twoSites "a-test").plan Host.furnished (.of "/p" "/p/scripts")).isOk = true := by
    decide +kernel
  obtain ⟨plan, hplan⟩ := exists_eq_ok_of_isOk hok
  refine ⟨plan, hplan, fun names hold => ?_⟩
  obtain ⟨hmem, -, hafter⟩ :=
    mem_schedulesAfter_iff (twoSites "a-test") (.of "/p" "/p/scripts") names
  rw [hafter Host.furnished plan hplan, hmem, hmem]
  constructor
  · have hlast : lastNamed? (twoSites "a-test").sites "atest" =
        some ⟨"a-test", some "/srv/b", none, none, none, none, none⟩ := by
      decide
    have hshared : ¬∀ site ∈ (twoSites "a-test").sites, site.scheduleName ≠ "atest" := by decide
    rw [hlast]
    simp [hshared]
  · have hother : ∀ site ∈ (twoSites "a-test").sites, site.scheduleName ≠ "old" := by decide
    exact .inr ⟨hother, hold⟩

/-! ## Sites with schedules -/

/-- A plan installs the schedule of a site that has one. It also removes a schedule of this name
exactly if another site has the name and no schedule, so not if the names are distinct. -/
theorem install_mem_scheduleSteps (s : Settings) (host : Host) (o : PlanOptions) (plan : Plan)
    (h : s.plan host o = .ok plan) (site : Site) (hsite : site ∈ s.sites)
    (hschedule : site.schedule = some true) :
    .install site.scheduleName ∈ scheduleSteps o.scripts plan.directives ∧
      (.remove site.scheduleName ∈ scheduleSteps o.scripts plan.directives ↔
        ∃ other ∈ s.sites, other.scheduleName = site.scheduleName ∧
          other.schedule ≠ some true) ∧
      ((s.sites.map fun site => site.scheduleName).Nodup →
        .remove site.scheduleName ∉ scheduleSteps o.scripts plan.directives) := by
  have hremove : .remove site.scheduleName ∈ scheduleSteps o.scripts plan.directives ↔
      ∃ other ∈ s.sites, other.scheduleName = site.scheduleName ∧
        other.schedule ≠ some true := by
    rw [scheduleSteps_of_plan h, List.mem_map]
    refine exists_congr fun other => and_congr_right fun _ => ?_
    unfold Site.scheduleStep
    by_cases hother : other.schedule = some true
    · simp [hother]
    · simp [hother]
  refine ⟨?_, hremove, ?_⟩
  · rw [scheduleSteps_of_plan h]
    refine List.mem_map.mpr ⟨site, hsite, ?_⟩
    unfold Site.scheduleStep
    rw [if_pos hschedule]
  · intro hdistinct hmem
    obtain ⟨other, hother, hname, hnot⟩ := hremove.mp hmem
    have heq : other = site := List.inj_on_of_nodup_map hdistinct hother hsite hname
    rw [heq] at hnot
    exact hnot hschedule

/-- A site without a schedule leaves that of another name alone. -/
theorem install_mem_scheduleSteps_twoSites : ∃ plan,
    (twoSites "b.test").plan Host.furnished (.of "/p" "/p/scripts") = .ok plan ∧
      .install "atest" ∈ scheduleSteps ⟨"/p/scripts"⟩ plan.directives ∧
      .remove "atest" ∉ scheduleSteps ⟨"/p/scripts"⟩ plan.directives := by
  have hok : ((twoSites "b.test").plan Host.furnished (.of "/p" "/p/scripts")).isOk = true := by
    decide +kernel
  obtain ⟨plan, hplan⟩ := exists_eq_ok_of_isOk hok
  obtain ⟨hinstall, -, hremove⟩ := install_mem_scheduleSteps _ _ _ plan hplan
    ⟨"a.test", some "/srv/a", none, none, none, none, some true⟩ List.mem_cons_self rfl
  have hname : Site.scheduleName ⟨"a.test", some "/srv/a", none, none, none, none, some true⟩ =
      "atest" := by decide
  have hdistinct : ((twoSites "b.test").sites.map fun site => site.scheduleName).Nodup := by decide
  rw [hname] at hinstall hremove
  exact ⟨plan, hplan, hinstall, hremove hdistinct⟩

/-- Sites with distinct host names can share a schedule, and then the one without removes what the
other one installs. -/
theorem remove_mem_scheduleSteps_alike : ((twoSites "a-test").sites.map (·.map)).Nodup ∧ ∃ plan,
    (twoSites "a-test").plan Host.furnished (.of "/p" "/p/scripts") = .ok plan ∧
      ∃ site ∈ (twoSites "a-test").sites, site.schedule = some true ∧
        .remove site.scheduleName ∈ scheduleSteps ⟨"/p/scripts"⟩ plan.directives := by
  have hok : ((twoSites "a-test").plan Host.furnished (.of "/p" "/p/scripts")).isOk = true := by
    decide +kernel
  obtain ⟨plan, hplan⟩ := exists_eq_ok_of_isOk hok
  have hsteps : scheduleSteps ⟨"/p/scripts"⟩ plan.directives =
      [.install "atest", .remove "atest"] :=
    (scheduleSteps_of_plan hplan).trans (by decide)
  refine ⟨by decide, plan, hplan, _, List.mem_cons_self, rfl, ?_⟩
  rw [hsteps]
  decide

end Settings

end Provision
