import Provision.Proofs.Plan.Scripts
import Provision.Proofs.Plan.Blocks
import Provision.Proofs.Settings.Document
import Provision.Proofs.Settings.Origin
import Provision.Proofs.Settings.Truth

/-!
# Schedules as documents ask for them

A site gets its schedule installed where its entry in the document has a schedule that counts as
true, whatever else it is. A schedule that is null or false is still one that the document has, so a
site without the key is told from both by the name of the script that removes its old schedule.
-/

namespace Provision

open Attempt
open Json (Source)
open Yaml (Document Node)

/-! ## What documents ask for -/

namespace Yaml.Document

/-- The entries of a document for its sites. -/
def siteNodes (d : Document) : List Node :=
  ((d.root.bind fun root => d.find? "sites" (d.entries root)).map d.items).getD []

/-- Whether the schedule of a site counts as true, if its entry has one. -/
def scheduleTruth (d : Document) (site : Node) : Option Bool :=
  (d.find? "schedule" (d.entries site)).map fun node => (d.target? node).any Node.countsTrue

end Yaml.Document

namespace Json.Source

/-- The entries of a document for its sites. -/
def siteSources (root : Source) : List Source :=
  ((root.member? (Settings.schema.fields.map Field.name) "sites").map items).getD []

/-- Whether the schedule of a site counts as true, if its entry has one. -/
def scheduleTruth (site : Source) : Option Bool :=
  (site.member? (Site.schema.fields.map Field.name) "schedule").map countsTrue

end Json.Source

/-- Which schedules the sites of a document have: for each site whether its schedule counts as true,
or none where the site has no such key. -/
def scheduleTruths (format : DocumentFormat) (text : String) : List (Option Bool) :=
  match format with
  | .yaml => (Document.ofText text).siteNodes.map (Document.ofText text).scheduleTruth
  | .json => (Json.Document.ofText text).root.siteSources.map Source.scheduleTruth

/-! ## What is read of them -/

namespace Site

/-- No other field of a site sets its schedule. -/
theorem part_schedule : schema.Part
    (.present "schedule" .truth (·.schedule) fun schedule site => { site with schedule })
    (·.schedule) where
  mem := by simp [schema]
  kept := by simp [schema, Field.needed, Field.optional, Field.present]

theorem getD_map_some {γ : Type} (entry : Option γ) (truth : γ → Bool) :
    (entry.map fun a => some (truth a)).getD none = entry.map truth := by
  cases entry with
  | none => rfl
  | some a => rfl

/-- A site of a YAML document has the schedule that its node asks for. -/
theorem ensuresIn_schedule {d : Document} (hd : d.Settled) (place : Yaml.Place) (node : Node) :
    (schema.codec.ofNode place node).EnsuresIn d fun site =>
      site.schedule = d.scheduleTruth node := by
  have hread : ∀ place node, (Codec.truth.ofNode place node).EnsuresIn d fun schedule =>
      ∀ _ : Site, schedule = some ((d.target? node).any Node.countsTrue) := by
    intro place node
    refine (Yaml.Reading.ensuresIn_truth hd place node).map ?_
    rintro b ⟨target, htarget, rfl⟩ _
    rw [htarget, Option.any_some]
  refine (part_schedule.ensuresIn_ofNode lawful rfl hread rfl place node).imp fun site hsite => ?_
  exact hsite.trans (getD_map_some _ _)

/-- A site of a JSON document has the schedule that its object asks for. -/
theorem ensures_schedule (depth : ℕ) {source : Source} (hsource : source.Scanned) :
    (schema.codec.ofSource depth source).Ensures fun site =>
      site.schedule = source.scheduleTruth := by
  have hread : ∀ depth source, source.Scanned → (Codec.truth.ofSource depth source).Ensures
      fun schedule => ∀ _ : Site, schedule = some source.countsTrue := by
    intro depth source hsource
    refine (Json.Reading.ensures_truth depth hsource).map ?_
    rintro b rfl _
    rfl
  refine (part_schedule.ensures_ofSource lawful rfl hread rfl depth hsource).imp fun site hsite => ?_
  exact hsite.trans (getD_map_some _ _)

end Site

namespace Settings

/-- No other field of settings sets the schedules of sites. -/
theorem part_sites : schema.Part
    (.list "sites" Site.schema.codec (·.sites) fun sites s => { s with sites })
    (·.sites.map Site.schedule) where
  mem := by simp [schema]
  kept := by simp [schema, Field.list, Field.optional, Field.present]

/-- Schedules as the entries ask for them, entry by entry, are the list of what they ask for. -/
theorem map_schedule_of_forall₂ {γ : Type} {truth : γ → Option Bool} {entries : List γ}
    {sites : List Site}
    (h : List.Forall₂ (fun entry site => site.schedule = truth entry) entries sites) :
    sites.map Site.schedule = entries.map truth := by
  induction h with
  | nil => rfl
  | cons hhead _ ih => rw [List.map_cons, List.map_cons, hhead, ih]

theorem map_getD_nil {γ δ ε : Type} (entry : Option γ) (items : γ → List δ) (f : δ → ε) :
    (entry.map fun a => (items a).map f).getD [] = ((entry.map items).getD []).map f := by
  cases entry with
  | none => rfl
  | some a => rfl

/-- The sites of a YAML document have the schedules that its nodes ask for, in order. -/
theorem ensuresIn_schedules {d : Document} (hd : d.Settled) (place : Yaml.Place) (node : Node) :
    (schema.codec.ofNode place node).EnsuresIn d fun s => s.sites.map Site.schedule =
      (((d.find? "sites" (d.entries node)).map d.items).getD []).map d.scheduleTruth := by
  have hread : ∀ place node, (Site.schema.codec.list.ofNode place node).EnsuresIn d fun sites =>
      ∀ _ : Settings, sites.map Site.schedule = (d.items node).map d.scheduleTruth := by
    intro place node
    refine (Yaml.Reading.ensuresIn_list (Site.ensuresIn_schedule hd) place node).imp ?_
    intro sites hsites _
    exact map_schedule_of_forall₂ hsites
  refine (part_sites.ensuresIn_ofNode lawful rfl hread rfl place node).imp fun s hs => ?_
  exact hs.trans (map_getD_nil _ _ _)

/-- The sites of a JSON document have the schedules that its objects ask for, in order. -/
theorem ensures_schedules (depth : ℕ) {source : Source} (hsource : source.Scanned) :
    (schema.codec.ofSource depth source).Ensures fun s =>
      s.sites.map Site.schedule = source.siteSources.map Source.scheduleTruth := by
  have hread : ∀ depth source, source.Scanned →
      (Site.schema.codec.list.ofSource depth source).Ensures fun sites =>
        ∀ _ : Settings, sites.map Site.schedule = source.items.map Source.scheduleTruth := by
    intro depth source hsource
    refine (Json.Reading.ensures_listItems (fun depth source => Site.ensures_schedule depth) depth
      hsource).imp ?_
    intro sites hsites _
    exact map_schedule_of_forall₂ hsites
  refine (part_sites.ensures_ofSource lawful rfl hread rfl depth hsource).imp fun s hs => ?_
  exact hs.trans (map_getD_nil _ _ _)

/-- Reading a whole YAML document keeps the schedules its nodes ask for. -/
theorem map_schedule_of_run {d : Document} (hd : d.Settled) {s : Settings}
    (h : d.run .blank schema.ofNode = .ok s) :
    s.sites.map Site.schedule = d.siteNodes.map d.scheduleTruth := by
  unfold Document.siteNodes
  refine Document.ensuresIn_run (P := fun s => s.sites.map Site.schedule = _) (fun hroot => ?_)
    (fun root hroot => ?_) h
  · rw [hroot]
    rfl
  · rw [hroot]
    exact ensuresIn_schedules hd .root root

/-- The sites of a document have the schedules that it asks for. -/
theorem map_schedule_of_ofText {format : DocumentFormat} {text : String} {s : Settings}
    (h : ofText format text = .ok s) :
    s.sites.map Site.schedule = scheduleTruths format text := by
  cases format with
  | yaml =>
    have hyaml : ofYaml text = .ok s := h
    exact map_schedule_of_run (Document.settled_ofText text) (eq_ok_of_mapError hyaml)
  | json =>
    have hjson : ofJson text = .ok s := h
    exact Json.Document.ensures_run (ensures_schedules _ (Json.scanned_root text))
      (eq_ok_of_mapError hjson)

-- an item of a list stands for the field at its position
example : scheduleTruths .json ("\x7b\"sites\": [\x7b\"map\": \"a\", \"schedule\": null\x7d, " ++
    "[\"b\", null, null, null, null, null, 0], [\"c\"]]\x7d") = [some false, some true, none] := by
  decide +kernel

end Settings

/-! ## What is planned for them -/

/-- What a script does about the schedule of a site: it installs the one that counts as true, and
otherwise removes what may be there, under a name of its own where the document has none. -/
structure Shell.Follows (o : PlanOptions) (truth : Option Bool) (shell : Shell) : Prop where
  installs : shell.source = .path (HostPath.join o.scripts.path "cron-schedule.sh") ↔
    truth = some true
  removes : shell.source = .inline "rm -f /etc/cron.d/$1" ↔ truth ≠ some true
  checks : shell.name = some "Checking for old Schedule" ↔ truth = none

/-- The second script of a site does what the site's own schedule asks for. -/
theorem Site.ScriptsOf.follows {o : PlanOptions} {site : Site} {pair : Shell × Shell}
    (h : site.ScriptsOf o pair) : pair.2.Follows o site.schedule := by
  rw [h.schedule]
  rcases site.schedule with _ | _ | _
  · exact ⟨⟨nofun, nofun⟩, ⟨fun _ => nofun, fun _ => rfl⟩, ⟨fun _ => rfl, fun _ => rfl⟩⟩
  · exact ⟨⟨nofun, by simp⟩, ⟨fun _ => by simp, fun _ => rfl⟩, ⟨by simp, nofun⟩⟩
  · exact ⟨⟨fun _ => rfl, fun _ => rfl⟩, ⟨nofun, by simp⟩, ⟨by simp, nofun⟩⟩

namespace Settings

/-- Every site has its two scripts in a plan, in the order of the sites, and the second one of each
does what the document asks for: it installs the schedule of the site just where the site's entry
has one that is neither null nor false. -/
theorem schedule_follows_document (format : DocumentFormat) (text : String) (s : Settings)
    (h : ofText format text = .ok s) (host : Host) (o : PlanOptions) :
    ∃ pairs, s.normalized.planSites o = pairs.flatMap shellPair ∧
      List.Forall₂ (Site.ScriptsOf o) s.sites pairs ∧
      List.Forall₂ (fun truth pair => pair.2.Follows o truth) (scheduleTruths format text) pairs ∧
      ∀ plan, s.plan host o = .ok plan →
        ∃ before after, plan.directives = before ++ pairs.flatMap shellPair ++ after := by
  obtain ⟨pairs, hplanned, hscripts⟩ := exists_sites s o
  refine ⟨pairs, hplanned, hscripts, ?_, ?_⟩
  · rw [← map_schedule_of_ofText h, List.forall₂_map_left_iff]
    exact hscripts.imp fun _ _ hpair => hpair.follows
  · intro plan hplan
    obtain ⟨before, hbefore, -⟩ := exists_directives hplan
    rw [hplanned] at hbefore
    exact ⟨before, _, hbefore⟩

/-- Sites with a schedule that is a tagged false, null, absent, and a quoted false. -/
def scheduleDocument : String :=
  "sites:\n- map: a\n  schedule: !x false\n- map: b\n  schedule: ~\n- map: c\n" ++
    "- map: d\n  schedule: 'false'\n"

/-- What the sites of the document ask for, one by one. -/
theorem scheduleTruths_scheduleDocument : scheduleTruths .yaml scheduleDocument =
    [some true, some false, none, some true] := by
  decide +kernel

/-- Its sites install, remove, look for an old schedule and install again. -/
theorem schedule_follows_scheduleDocument : ∃ s pairs,
    ofText .yaml scheduleDocument = .ok s ∧
      s.normalized.planSites (.of "/p" "/p/scripts") = pairs.flatMap shellPair ∧
      List.Forall₂ (fun truth pair => pair.2.Follows (.of "/p" "/p/scripts") truth)
        [some true, some false, none, some true] pairs := by
  have hok : (ofText .yaml scheduleDocument).isOk = true := by decide +kernel
  obtain ⟨s, hs⟩ := exists_eq_ok_of_isOk hok
  obtain ⟨pairs, hpairs, -, htruths, -⟩ :=
    schedule_follows_document .yaml scheduleDocument s hs Host.furnished (.of "/p" "/p/scripts")
  rw [scheduleTruths_scheduleDocument] at htruths
  exact ⟨s, pairs, hs, hpairs, htruths⟩

/-- A site with false under a local tag whose octets spell no text. -/
def surrogateDocument : String := "sites:\n- map: a\n  schedule: !%ED%A0%80 false\n"

/-- The tree of `surrogateDocument`. -/
def surrogateTree : Node :=
  .mapping none none [(.plain "sites" none, .sequence none none [.mapping none none [
    (.plain "map" none, .plain "a" none),
    (.plain "schedule" none,
      .plain "false" (some (.ofOctets ['!'.toUInt8, 0xED, 0xA0, 0x80])))]])]

/-- Such a tag makes no difference: the schedule is removed, as it is for a plain false. -/
theorem removes_surrogateDocument : (Document.ofText surrogateDocument).Spells surrogateTree ∧
    ∃ s, ofText .yaml surrogateDocument = .ok s ∧ ∀ o, ∃ pair,
      s.normalized.planSites o = shellPair pair ∧
        pair.2.source = .inline "rm -f /etc/cron.d/$1" ∧
        pair.2.source ≠ .path (HostPath.join o.scripts.path "cron-schedule.sh") := by
  have hspells := Document.spells_of_isSpelling (by decide +kernel :
    (Document.ofText surrogateDocument).isSpelling surrogateTree = true)
  have hok : (ofText .yaml surrogateDocument).isOk = true := by decide +kernel
  obtain ⟨s, hs⟩ := exists_eq_ok_of_isOk hok
  refine ⟨hspells, s, hs, fun o => ?_⟩
  have htruths : scheduleTruths .yaml surrogateDocument = [some false] := by decide +kernel
  rw [← map_schedule_of_ofText hs, List.map_eq_singleton_iff] at htruths
  obtain ⟨site, hsites, hschedule⟩ := htruths
  obtain ⟨pair, hpair, hscripts⟩ := exists_site o site
  have hfollows := hscripts.follows
  rw [hschedule] at hfollows
  refine ⟨pair, ?_, hfollows.removes.mpr nofun, fun hinstalls => ?_⟩
  · show (s.sites.map Site.normalized).flatMap _ = shellPair pair
    rw [hsites]
    exact hpair
  · cases hfollows.installs.mp hinstalls

end Settings

end Provision
