import Provision.Proofs.Settings.Document
import Provision.Proofs.Settings.ScalarPlace

/-!
# Bare integers in settings

The fields that take scalars of any type hold the digits of an integer, whether a document gives it
bare or in quotes; and whether the document is accepted does not depend on what it gives for them.
Integers beyond the signed range are the exception: bare, they are read as floating point numbers,
whose shortest digits are others (`Settings.memory_wideDocument`).
-/

namespace Provision

open Yaml (Document Node)

/-- A field of settings that takes scalars of any type, those of sites and of their parameters by
index. -/
inductive ScalarPlace
  | memory
  | cpus
  | natdnshostresolver
  | sitePort (site : ℕ)
  | siteSsl (site : ℕ)
  | paramValue (site param : ℕ)

namespace ScalarPlace

/-- How to come to the field in a document. -/
def lead : ScalarPlace → Lead
  | memory => Settings.schema.lead "memory" .here
  | cpus => Settings.schema.lead "cpus" .here
  | natdnshostresolver => Settings.schema.lead "natdnshostresolver" .here
  | sitePort site => Settings.schema.lead "sites" (.item site (Site.schema.lead "port" .here))
  | siteSsl site => Settings.schema.lead "sites" (.item site (Site.schema.lead "ssl" .here))
  | paramValue site param => Settings.schema.lead "sites" (.item site
    (Site.schema.lead "params" (.item param (SiteParam.schema.lead "value" .here))))

/-- What the field holds, if it is there. -/
def get (s : Settings) : ScalarPlace → Option String
  | memory => s.memory
  | cpus => s.cpus
  | natdnshostresolver => s.natdnshostresolver
  | sitePort site => s.sites[site]?.bind (·.port)
  | siteSsl site => s.sites[site]?.bind (·.ssl)
  | paramValue site param => do
    let site ← s.sites[site]?
    let params ← site.params
    return (← params[param]?).value

/-- Whether a document gives the field as a text: in quotes, or as a bare integer. -/
inductive Gives (place : ScalarPlace) (given : String) : DocumentFormat → String → Prop
  | yaml {text : String} {root : Node} (hroot : (Document.ofText text).root = some root)
      (h : place.lead.NodeHas (Document.ofText text) given root) : Gives place given .yaml text
  | json {text : String} (h : place.lead.SourceHas given (Json.Document.ofText text).root) :
      Gives place given .json text

end ScalarPlace

/-! ## Fields -/

section

variable {text : String} {lead : Lead}

/-- The value of a parameter is the text that its entry spells. -/
theorem SiteParam.shows_value :
    schema.codec.Shows (schema.lead "value" .here) text (·.value = text) := by
  have howns : schema.Owns (.needed "value" .scalar (·.value) fun value param =>
      { param with value }) :=
    ⟨⟨by simp [schema], by simp [schema, Field.needed]⟩, fun _ _ => rfl⟩
  exact Record.shows lawful howns .scalar

/-- The port of a site is the text that its entry spells. -/
theorem Site.shows_port : schema.codec.Shows (schema.lead "port" .here) text
    fun site => ∃ a, site.port = some a ∧ a = text := by
  have howns : schema.Owns (.optional "port" .scalar (·.port) fun port site =>
      { site with port }) :=
    ⟨⟨by simp [schema], by simp [schema, Field.needed, Field.optional, Field.present]⟩,
      fun _ _ => rfl⟩
  exact Record.shows lawful howns (.optional .scalar)

/-- The port for TLS is the text that its entry spells, under either of its names. -/
theorem Site.shows_ssl : schema.codec.Shows (schema.lead "ssl" .here) text
    fun site => ∃ a, site.ssl = some a ∧ a = text := by
  have howns : schema.Owns { Field.optional "ssl" .scalar (·.ssl) fun ssl (site : Site) =>
      { site with ssl } with otherName := some "ssl_port" } :=
    ⟨⟨by simp [schema], by simp [schema, Field.needed, Field.optional, Field.present]⟩,
      fun _ _ => rfl⟩
  exact Record.shows lawful howns (.optional .scalar)

/-- What one parameter of a site shows, the site shows at that parameter. -/
theorem Site.shows_params {P : SiteParam → Prop} (h : SiteParam.schema.codec.Shows lead text P)
    (param : ℕ) : schema.codec.Shows (schema.lead "params" (.item param lead)) text
      fun site => ∃ params, site.params = some params ∧ ∃ a, params[param]? = some a ∧ P a := by
  have howns : schema.Owns (.optional "params" (.list SiteParam.schema.codec) (·.params)
      fun params site => { site with params }) :=
    ⟨⟨by simp [schema], by simp [schema, Field.needed, Field.optional, Field.present]⟩,
      fun _ _ => rfl⟩
  exact Record.shows lawful howns (.optional (h.list param))

end

namespace Settings

section

variable {text : String} {lead : Lead}

/-- What one site shows, the settings show at that site. -/
theorem shows_sites {P : Site → Prop} (h : Site.schema.codec.Shows lead text P) (site : ℕ) :
    schema.codec.Shows (schema.lead "sites" (.item site lead)) text
      fun s => ∃ a, s.sites[site]? = some a ∧ P a := by
  have howns : schema.Owns (.list "sites" Site.schema.codec (·.sites) fun sites s =>
      { s with sites }) :=
    ⟨⟨by simp [schema], by simp [schema, Field.list, Field.optional, Field.present]⟩,
      fun _ _ => rfl⟩
  exact Record.shows lawful howns (h.list site)

/-- The fields hold what a document gives for them. -/
theorem shows (place : ScalarPlace) :
    schema.codec.Shows place.lead text (place.get · = some text) := by
  cases place with
  | memory =>
    have howns : schema.Owns (.optional "memory" .scalar (·.memory) fun memory s =>
        { s with memory }) :=
      ⟨⟨by simp [schema], by simp [schema, Field.list, Field.optional, Field.present]⟩,
        fun _ _ => rfl⟩
    refine (Record.shows lawful howns (.optional .scalar)).imp ?_
    rintro s ⟨_, hmemory, rfl⟩
    exact hmemory
  | cpus =>
    have howns : schema.Owns (.optional "cpus" .scalar (·.cpus) fun cpus s => { s with cpus }) :=
      ⟨⟨by simp [schema], by simp [schema, Field.list, Field.optional, Field.present]⟩,
        fun _ _ => rfl⟩
    refine (Record.shows lawful howns (.optional .scalar)).imp ?_
    rintro s ⟨_, hcpus, rfl⟩
    exact hcpus
  | natdnshostresolver =>
    have howns : schema.Owns (.optional "natdnshostresolver" .scalar (·.natdnshostresolver)
        fun natdnshostresolver s => { s with natdnshostresolver }) :=
      ⟨⟨by simp [schema], by simp [schema, Field.list, Field.optional, Field.present]⟩,
        fun _ _ => rfl⟩
    refine (Record.shows lawful howns (.optional .scalar)).imp ?_
    rintro s ⟨_, hresolver, rfl⟩
    exact hresolver
  | sitePort site =>
    refine (shows_sites Site.shows_port site).imp ?_
    rintro s ⟨a, ha, _, hport, rfl⟩
    exact Option.bind_eq_some_iff.mpr ⟨a, ha, hport⟩
  | siteSsl site =>
    refine (shows_sites Site.shows_ssl site).imp ?_
    rintro s ⟨a, ha, _, hssl, rfl⟩
    exact Option.bind_eq_some_iff.mpr ⟨a, ha, hssl⟩
  | paramValue site param =>
    refine (shows_sites (Site.shows_params SiteParam.shows_value param) site).imp ?_
    rintro s ⟨a, ha, params, hparams, found, hfound, rfl⟩
    refine Option.bind_eq_some_iff.mpr ⟨a, ha, Option.bind_eq_some_iff.mpr ⟨params, hparams, ?_⟩⟩
    exact Option.bind_eq_some_iff.mpr ⟨found, hfound, rfl⟩

end

/-! ## Documents -/

/-- The field at a place is the text that the document gives there. -/
theorem get_of_gives {place : ScalarPlace} {given text : String} {format : DocumentFormat}
    (h : place.Gives given format text) {s : Settings} (hs : ofText format text = .ok s) :
    place.get s = some given := by
  cases h with
  | @yaml text root hroot h =>
    have hrun := eq_ok_of_mapError (hs : ofYaml text = .ok s)
    refine Document.ensuresIn_run (P := fun s => place.get s = some given) (fun hnone => ?_)
      (fun found hfound => ?_) hrun
    · rw [hroot] at hnone
      cases hnone
    · obtain rfl : root = found := Option.some.inj (hroot.symm.trans hfound)
      exact (shows place).ofNode h .root
  | @json text h =>
    have hrun := eq_ok_of_mapError (hs : ofJson text = .ok s)
    exact Json.Document.ensures_run ((shows place).ofSource h _) hrun

/-- Documents that differ only in the scalars of such fields are rejected for the same error or all
accepted; they hold the same settings if the scalars spell the same texts, each bare or in quotes;
and these texts are what the fields hold. -/
theorem holds_of_respelled {T : String → String → Prop} {format : DocumentFormat}
    {text text' : String} (h : Respelled T format text text') :
    (∀ e, ofText format text = .error e ↔ ofText format text' = .error e) ∧
      ((∀ given given', T given given' → given = given') →
        ofText format text = ofText format text') ∧
      ∀ s, ofText format text = .ok s → ∀ (place : ScalarPlace) given,
        place.Gives given format text → place.get s = some given := by
  have hrel := rel_ofText h
  refine ⟨fun e => ?_, fun hT => ?_, fun s hs place given hgives => get_of_gives hgives hs⟩
  · cases hrel with
    | ok hs hs' halike =>
      rw [hs, hs']
      exact ⟨nofun, nofun⟩
    | error he he' => rw [he, he']
  · exact (hrel.imp fun s s' halike => halike hT).eq

/-- A document with two bare integers. -/
def bareDocument : String := "memory: 2048\nsites:\n- map: a\n  ssl_port: 443\n"

/-- `bareDocument` with its integers in quotes. -/
def quotedDocument : String := "memory: '2048'\nsites:\n- map: a\n  ssl_port: \"443\"\n"

/-- The tree of both documents, as far as they are the same. -/
def integersTree (memory ssl : Yaml.Scalar) : Node :=
  .mapping none none [
    (.plain "memory" none, .scalar none memory),
    (.plain "sites" none, .sequence none none [.mapping none none [
      (.plain "map" none, .plain "a" none), (.plain "ssl_port" none, .scalar none ssl)]])]

/-- The two documents spell the same tree but for the quotes around the integers. -/
theorem spells_integers :
    (Document.ofText bareDocument).Spells
      (integersTree ⟨"2048", none, .plain⟩ ⟨"443", none, .plain⟩) ∧
    (Document.ofText quotedDocument).Spells
      (integersTree ⟨"2048", none, .singleQuoted⟩ ⟨"443", none, .doubleQuoted⟩) :=
  ⟨Document.spells_of_isSpelling (by decide +kernel),
    Document.spells_of_isSpelling (by decide +kernel)⟩

/-- The quoted document is the bare one respelled. -/
theorem respelled_bareDocument : Respelled (· = ·) .yaml bareDocument quotedDocument := by
  obtain ⟨hspells, hspells'⟩ := spells_integers
  have hshares : (Document.ofText bareDocument).Shares (Document.ofText quotedDocument) ∅ :=
    ⟨by decide +kernel, by rw [hspells.unbroken, hspells'.unbroken], nofun, nofun⟩
  have hmemory : BareText 2048 "2048" := .digits (by norm_num) (by norm_num)
  have hssl : BareText 443 "443" := .digits (by norm_num) (by norm_num)
  refine .yaml ∅ hspells.root_eq hspells'.root_eq (by rw [hspells.single, hspells'.single])
    hshares (.differ (.mk none none none none (.cons ?_ (.cons ?_ .nil))))
  · refine .named "memory" rfl (by decide) (.scalar none _) (.differ ?_)
    exact ⟨"2048", "2048", .bare none hmemory, .quoted none nofun, rfl⟩
  · refine .named "sites" rfl (by decide) (.scalar none _) (.differ ?_)
    refine .mk none none none none (.cons (.differ ?_) .nil)
    refine .mk none none none none (.cons (.of_within ⟨.scalar none _, .scalar none _⟩)
      (.cons ?_ .nil))
    refine .named "ssl" rfl (by decide) (.scalar none _) (.differ ?_)
    exact ⟨"443", "443", .bare none hssl, .quoted none nofun, rfl⟩

/-- The bare document gives the port for TLS by the older name of its key. -/
theorem gives_bareDocument : (ScalarPlace.siteSsl 0).Gives "443" .yaml bareDocument := by
  have hssl : BareText 443 "443" := .digits (by norm_num) (by norm_num)
  refine .yaml spells_integers.1.root_eq ?_
  refine ⟨_, List.mem_cons_of_mem _ List.mem_cons_self, ⟨"sites", rfl, by decide⟩, ?_⟩
  refine ⟨_, rfl, _, List.mem_cons_of_mem _ List.mem_cons_self,
    ⟨"ssl_port", rfl, by decide⟩, ?_⟩
  exact ⟨_, rfl, .bare none hssl⟩

/-- A document with a negative integer in JSON. -/
def bareObject : String := "\x7b\"cpus\": -1\x7d"

/-- `bareObject` with its integer in quotes. -/
def quotedObject : String := "\x7b\"cpus\": \"-1\"\x7d"

/-- The two objects as the trees they are read as. -/
theorem ofText_objects :
    Json.Document.ofText bareObject = ⟨.table [(.ok "cpus", .number (some (.int (-1))))], false⟩ ∧
    Json.Document.ofText quotedObject = ⟨.table [(.ok "cpus", .text (.ok "-1"))], false⟩ :=
  ⟨rfl, rfl⟩

/-- The quoted object is the bare one respelled. -/
theorem respelled_bareObject : Respelled (· = ·) .json bareObject quotedObject := by
  obtain ⟨hbare, hquoted⟩ := ofText_objects
  have hcpus : BareText (-1) "-1" := .digits (by norm_num) (by norm_num)
  refine .json (by rw [hbare, hquoted]) ?_
  rw [hbare, hquoted]
  refine .table (.cons (.named "cpus" (by decide) (.inr ?_)) .nil)
  exact ⟨"-1", "-1", .bare hcpus, .quoted, rfl⟩

/-- The bare object gives the number of processors. -/
theorem gives_bareObject : ScalarPlace.cpus.Gives "-1" .json bareObject := by
  have hcpus : BareText (-1) "-1" := .digits (by norm_num) (by norm_num)
  refine .json ?_
  rw [ofText_objects.1]
  exact ⟨_, List.mem_cons_self, ⟨"cpus", rfl, by decide⟩, .bare hcpus⟩

/-- Bare or quoted, the integers of both documents come to the same settings. -/
theorem holds_of_respelled_documents :
    (∃ s, ofText .yaml bareDocument = .ok s ∧ ofText .yaml quotedDocument = .ok s ∧
      (ScalarPlace.siteSsl 0).get s = some "443") ∧
    ∃ s, ofText .json bareObject = .ok s ∧ ofText .json quotedObject = .ok s ∧
      s.cpus = some "-1" := by
  constructor
  · have hok : (ofText .yaml bareDocument).isOk = true := by decide +kernel
    obtain ⟨s, hs⟩ := Attempt.exists_eq_ok_of_isOk hok
    obtain ⟨-, hsame, hholds⟩ := holds_of_respelled respelled_bareDocument
    have hs' := (hsame fun _ _ heq => heq).symm.trans hs
    exact ⟨s, hs, hs', hholds s hs (.siteSsl 0) "443" gives_bareDocument⟩
  · have hok : (ofText .json bareObject).isOk = true := by decide +kernel
    obtain ⟨s, hs⟩ := Attempt.exists_eq_ok_of_isOk hok
    obtain ⟨-, hsame, hholds⟩ := holds_of_respelled respelled_bareObject
    have hs' := (hsame fun _ _ heq => heq).symm.trans hs
    exact ⟨s, hs, hs', hholds s hs .cpus "-1" gives_bareObject⟩

/-- A document with a bare integer beyond the signed range. -/
def wideDocument : String := "memory: 18446744073709551615\n"

/-- `wideDocument` with its integer in quotes. -/
def quotedWideDocument : String := "memory: \"18446744073709551615\"\n"

/-- Beyond the signed range a bare integer is not what it is in quotes. -/
theorem memory_wideDocument : ∃ s s', ofText .yaml wideDocument = .ok s ∧
    ofText .yaml quotedWideDocument = .ok s' ∧ s.memory = some "18446744073709552000" ∧
      s'.memory = some "18446744073709551615" := by
  have hcheck : (ofText .yaml wideDocument).toOption.map (·.memory) =
      some (some "18446744073709552000") := by decide +kernel
  have hcheck' : (ofText .yaml quotedWideDocument).toOption.map (·.memory) =
      some (some "18446744073709551615") := by decide +kernel
  obtain ⟨s, hs, hmemory⟩ := Option.map_eq_some_iff.mp hcheck
  obtain ⟨s', hs', hmemory'⟩ := Option.map_eq_some_iff.mp hcheck'
  exact ⟨s, s', Attempt.toOption_eq_some_iff.mp hs, Attempt.toOption_eq_some_iff.mp hs', hmemory,
    hmemory'⟩

end Settings

end Provision
