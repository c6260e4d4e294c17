import Provision.Proofs.Plan.Failure
import Provision.Proofs.Settings.Nullable

/-!
# Null keys of settings

What settings become when a record of their document gains a key with null in it, wherever in the
document the record stands. Under a key of an optional field they stay the same. With `keys` they
get a list without keys, and so no plan is made of them; with `schedule` a site gets a schedule that
is not wanted.
-/

namespace Provision

open Json (Source)
open Yaml (Document Node)
open Yaml.Reading (Yields)

/-! ## Places of records -/

/-- Where in a document a record stands that has optional fields: at the root, or in one of the
lists there. -/
inductive RecordPlace
  | settings
  | network (index : ℕ)
  | port (index : ℕ)
  | folder (index : ℕ)
  | site (index : ℕ)

namespace RecordPlace

/-- The keys of optional fields. -/
def optionalKeys : RecordPlace → List String
  | settings => Settings.optionalKeys
  | network _ => Network.optionalKeys
  | port _ => PortMapping.optionalKeys
  | folder _ => Folder.optionalKeys
  | site _ => Site.optionalKeys

/-- Whether a tree gains a key with null in it, in the mapping at a place. -/
def NodeGains (key : String) : RecordPlace → Node → Node → Prop
  | settings => Node.GainsNull Settings.schema.fieldName? key
  | network index =>
    Node.ItemChanges "networks" index (Node.GainsNull Network.schema.fieldName? key)
  | port index => Node.ItemChanges "ports" index (Node.GainsNull PortMapping.schema.fieldName? key)
  | folder index => Node.ItemChanges "folders" index (Node.GainsNull Folder.schema.fieldName? key)
  | site index => Node.ItemChanges "sites" index (Node.GainsNull Site.schema.fieldName? key)

/-- Whether a source gains a key with null in it, in the object at a place. -/
def SourceGains (key : String) : RecordPlace → Source → Source → Prop
  | settings => Source.GainsNull Settings.schema.fieldName? key
  | network index =>
    Source.ItemChanges "networks" index (Source.GainsNull Network.schema.fieldName? key)
  | port index =>
    Source.ItemChanges "ports" index (Source.GainsNull PortMapping.schema.fieldName? key)
  | folder index =>
    Source.ItemChanges "folders" index (Source.GainsNull Folder.schema.fieldName? key)
  | site index => Source.ItemChanges "sites" index (Source.GainsNull Site.schema.fieldName? key)

/-- Whether a document is another one with a key more and null in it, in the record at a place. A
YAML document has to be a tree without aliases. -/
inductive Gains (place : RecordPlace) (key : String) : DocumentFormat → String → String → Prop
  | yaml {text text' : String} {root root' : Node} (hroot : (Document.ofText text).root = some root)
      (hself : root.SelfContained) (hspells : (Document.ofText text').Spells root')
      (h : place.NodeGains key root root') : Gains place key .yaml text text'
  | json {text text' : String} (hsingle : (Json.Document.ofText text').hasMore = false)
      (h : place.SourceGains key (Json.Document.ofText text).root
        (Json.Document.ofText text').root) : Gains place key .json text text'

/-- What settings become with the key, of which `holds` says whether the document with it holds
them. -/
structure Becomes (place : RecordPlace) (key : String) (s : Settings) (holds : Settings → Prop) :
    Prop where
  same : key ∈ place.optionalKeys → holds s
  keys : place = settings → key = "keys" → s.keys = none ∧ holds { s with keys := some [] }
  schedule : ∀ index, place = site index → key = "schedule" →
    ∃ site, s.sites[index]? = some site ∧ site.schedule = none ∧
      holds { s with sites := s.sites.set index { site with schedule := some false } }

theorem Becomes.imp {place : RecordPlace} {key : String} {s : Settings}
    {holds holds' : Settings → Prop} (h : place.Becomes key s holds)
    (himp : ∀ s, holds s → holds' s) : place.Becomes key s holds' where
  same hkey := himp s (h.same hkey)
  keys hplace hkey := (h.keys hplace hkey).imp id (himp _)
  schedule index hplace hkey := by
    obtain ⟨site, hsite, hschedule, hset⟩ := h.schedule index hplace hkey
    exact ⟨site, hsite, hschedule, himp _ hset⟩

end RecordPlace

/-! ## What settings become -/

namespace Settings

open RecordPlace

variable {key : String} {s : Settings}

/-- The keys are the only field that goes by their name. -/
theorem find?_keys : schema.fields.find? (·.goesBy "keys") =
    some (.present "keys" (.presentList .text) (·.keys) fun keys s => { s with keys }) :=
  Record.find?_name lawful.distinct
    (.present "keys" (.presentList .text) (·.keys) fun keys s => { s with keys })
    (by simp [schema])

/-- The schedule is the only field of a site that goes by its name. -/
theorem find?_schedule : Site.schema.fields.find? (·.goesBy "schedule") =
    some (.present "schedule" .truth (·.schedule) fun schedule site => { site with schedule }) :=
  Record.find?_name Site.lawful.distinct
    (.present "schedule" .truth (·.schedule) fun schedule site => { site with schedule })
    (by simp [Site.schema])

/-- Putting back an entry where it was changes nothing. -/
theorem set_of_getElem? {α : Type} {as : List α} {index : ℕ} {a : α} (h : as[index]? = some a) :
    as.set index a = as := by
  obtain ⟨hindex, rfl⟩ := List.getElem?_eq_some_iff.mp h
  exact List.set_getElem_self hindex

theorem sites_mem_fields : .list "sites" Site.schema.codec (·.sites)
    (fun sites s => { s with sites }) ∈ schema.fields := by
  simp [schema]

/-! ### YAML -/

section

variable {root root' : Node} {place : Yaml.Place}

/-- Settings stay the same when an item of a list gains a key that may be null. -/
theorem yields_of_item {β : Type} {r : Record β} {keys : List String} (hr : r.Nullable keys)
    (hcodec : r.codec.Decided) {name : String} (get : Settings → List β)
    (put : List β → Settings → Settings) (hfield : .list name r.codec get put ∈ schema.fields)
    (hkey : key ∈ keys) {index : ℕ}
    (h : root.ItemChanges name index (Node.GainsNull r.fieldName? key) root')
    (hroot : root.SelfContained) (hs : Yields (schema.ofNode place root) s) :
    Yields (schema.ofNode place root') s := by
  obtain ⟨item, item', hgains, hself, itemPlace, items, b, record, rfl, hb, hitem, hset⟩ :=
    Record.exists_item_of_itemChanges lawful commutes nullable.decided hfield hcodec h hroot hs
  have hsame := hset b (hr.yields hkey hgains hself hitem)
  rwa [set_of_getElem? hb] at hsame

/-- A null under a key that is optional reads as if the key were missing. -/
theorem yields_of_optionalKey {recordPlace : RecordPlace} (hkey : key ∈ recordPlace.optionalKeys)
    (h : recordPlace.NodeGains key root root') (hroot : root.SelfContained)
    (hs : Yields (schema.ofNode place root) s) : Yields (schema.ofNode place root') s := by
  cases recordPlace with
  | settings => exact nullable.yields hkey h hroot hs
  | network index =>
    exact yields_of_item Network.nullable (Network.obeys Codec.law_unordered).decided
      (·.networks) (fun networks s => { s with networks }) (by simp [schema]) hkey h hroot hs
  | port index =>
    exact yields_of_item PortMapping.nullable (PortMapping.obeys Codec.law_unordered).decided
      (·.ports) (fun ports s => { s with ports }) (by simp [schema]) hkey h hroot hs
  | folder index =>
    exact yields_of_item Folder.nullable (Folder.obeys Codec.law_unordered).decided
      (·.folders) (fun folders s => { s with folders }) (by simp [schema]) hkey h hroot hs
  | site index =>
    exact yields_of_item Site.nullable (Site.obeys Codec.law_unordered).decided _ _
      sites_mem_fields hkey h hroot hs

/-- A null schedule reads as a schedule that is switched off, and the rest stays. -/
theorem yields_of_schedule {index : ℕ} (h : (site index).NodeGains "schedule" root root')
    (hroot : root.SelfContained) (hs : Yields (schema.ofNode place root) s) :
    ∃ site, s.sites[index]? = some site ∧ site.schedule = none ∧
      Yields (schema.ofNode place root')
        { s with sites := s.sites.set index { site with schedule := some false } } := by
  obtain ⟨item, item', hgains, hself, itemPlace, sites, site, record, rfl, hsite, hitem, hset⟩ :=
    Record.exists_item_of_itemChanges lawful commutes nullable.decided sites_mem_fields
      (Site.obeys Codec.law_unordered).decided h hroot hs
  obtain ⟨hput, hsame⟩ := Record.yields_of_gainsNull Site.commutes Site.nullable.decided
    find?_schedule Codec.readsNull_truth.ofNode hgains hself hitem
  exact ⟨site, hsite, (congrArg Site.schedule (hsame none rfl)).symm, hset _ hput⟩

/-- One more null in a YAML document changes what its key says, and nothing else. -/
theorem becomes_of_yields {recordPlace : RecordPlace} (h : recordPlace.NodeGains key root root')
    (hroot : root.SelfContained) (hs : Yields (schema.ofNode place root) s) :
    recordPlace.Becomes key s (Yields (schema.ofNode place root')) where
  same hkey := yields_of_optionalKey hkey h hroot hs
  keys hplace hkey := by
    subst hplace hkey
    -- null is a list without keys, and the blank record has no list at all
    obtain ⟨hput, hsame⟩ := Record.yields_of_gainsNull commutes nullable.decided find?_keys
      (Codec.readsNull_presentList .text).ofNode h hroot hs
    exact ⟨(congrArg Settings.keys (hsame none rfl)).symm, hput⟩
  schedule index hplace hkey := by
    subst hplace hkey
    exact yields_of_schedule h hroot hs

end

/-! ### JSON -/

section

variable {root root' : Source} {depth : ℕ}

/-- Settings stay the same when an item of a list gains a key that may be null. -/
theorem ofSource_of_item {β : Type} {r : Record β} {keys : List String} (hr : r.Nullable keys)
    {name : String} (get : Settings → List β) (put : List β → Settings → Settings)
    (hfield : .list name r.codec get put ∈ schema.fields) (hkey : key ∈ keys) {index : ℕ}
    (h : root.ItemChanges name index (Source.GainsNull r.fieldName? key) root')
    (hs : schema.ofSource depth root = .ok s) : schema.ofSource depth root' = .ok s := by
  obtain ⟨item, item', hgains, below, items, b, record, rfl, hb, hitem, hset⟩ :=
    Record.exists_item_of_sourceChanges lawful commutes hfield h hs
  have hsame := hset b (hr.ofSource hkey hgains hitem)
  rwa [set_of_getElem? hb] at hsame

/-- A null under a key that is optional reads as if the key were missing. -/
theorem ofSource_of_optionalKey {recordPlace : RecordPlace} (hkey : key ∈ recordPlace.optionalKeys)
    (h : recordPlace.SourceGains key root root') (hs : schema.ofSource depth root = .ok s) :
    schema.ofSource depth root' = .ok s := by
  cases recordPlace with
  | settings => exact nullable.ofSource hkey h hs
  | network index =>
    exact ofSource_of_item Network.nullable (·.networks) (fun networks s => { s with networks })
      (by simp [schema]) hkey h hs
  | port index =>
    exact ofSource_of_item PortMapping.nullable (·.ports) (fun ports s => { s with ports })
      (by simp [schema]) hkey h hs
  | folder index =>
    exact ofSource_of_item Folder.nullable (·.folders) (fun folders s => { s with folders })
      (by simp [schema]) hkey h hs
  | site index => exact ofSource_of_item Site.nullable _ _ sites_mem_fields hkey h hs

/-- A null schedule reads as a schedule that is switched off, and the rest stays. -/
theorem ofSource_of_schedule {index : ℕ} (h : (site index).SourceGains "schedule" root root')
    (hs : schema.ofSource depth root = .ok s) :
    ∃ site, s.sites[index]? = some site ∧ site.schedule = none ∧
      schema.ofSource depth root' =
        .ok { s with sites := s.sites.set index { site with schedule := some false } } := by
  obtain ⟨item, item', hgains, below, sites, site, record, rfl, hsite, hitem, hset⟩ :=
    Record.exists_item_of_sourceChanges lawful commutes sites_mem_fields h hs
  obtain ⟨hput, hsame⟩ := Record.ofSource_of_gainsNull Site.commutes find?_schedule
    Codec.readsNull_truth.ofSource hgains hitem
  exact ⟨site, hsite, (congrArg Site.schedule (hsame none rfl)).symm, hset _ hput⟩

/-- One more null in a JSON document changes what its key says, and nothing else. -/
theorem becomes_of_ofSource {recordPlace : RecordPlace}
    (h : recordPlace.SourceGains key root root') (hs : schema.ofSource depth root = .ok s) :
    recordPlace.Becomes key s (schema.ofSource depth root' = .ok ·) where
  same hkey := ofSource_of_optionalKey hkey h hs
  keys hplace hkey := by
    subst hplace hkey
    -- null is a list without keys, and the blank record has no list at all
    obtain ⟨hput, hsame⟩ := Record.ofSource_of_gainsNull commutes find?_keys
      (Codec.readsNull_presentList .text).ofSource h hs
    exact ⟨(congrArg Settings.keys (hsame none rfl)).symm, hput⟩
  schedule index hplace hkey := by
    subst hplace hkey
    exact ofSource_of_schedule h hs

end

/-! ### Documents -/

/-- The root of a document that holds settings and has no aliases is what they are read from. -/
theorem yields_of_ofYaml {text : String} {root : Node}
    (hroot : (Document.ofText text).root = some root) (hself : root.SelfContained)
    (hs : ofYaml text = .ok s) : Yields (schema.ofNode .root root) s := by
  have hrun : (Document.ofText text).run .blank schema.ofNode = .ok s := eq_ok_of_mapError hs
  obtain ⟨result, hresult⟩ := (obeys Codec.law_unordered).decided 128 root hself
  refine Document.ensuresIn_run (P := Yields (schema.ofNode .root root)) (fun hnone => ?_)
    (fun found hfound => ?_) hrun
  · rw [hroot] at hnone
    cases hnone
  · rw [hroot] at hfound
    cases hfound
    exact (hresult .root).ensuresIn_yields _

/-- Settings that a text gives are those of its tree. -/
theorem ofSource_of_ofJson {text : String} (hs : ofJson text = .ok s) :
    schema.ofSource Json.depthLimit (Json.Document.ofText text).root = .ok s :=
  Json.Document.ensures_run (fun _ hread => hread) (eq_ok_of_mapError hs)

/-- Settings of the tree of a text with a single document are those of the text. -/
theorem ofJson_of_ofSource {text : String} (hsingle : (Json.Document.ofText text).hasMore = false)
    (hs : schema.ofSource Json.depthLimit (Json.Document.ofText text).root = .ok s) :
    ofJson text = .ok s := by
  unfold ofJson Json.Document.run
  rw [hs, hsingle]
  rfl

/-- Settings with a list without keys have no plan for that reason, unless the public key is one
already. -/
theorem plan_eq_noPrivateKeys_iff (h : s.keys = some []) (host : Host) (o : PlanOptions) :
    s.plan host o = .error .noPrivateKeys ↔ ¬s.AuthorizeUnreadable host o := by
  rw [plan_eq_error_iff_fails]
  constructor
  · intro hfails
    cases hfails with
    | noKeys hauthorize _ => exact hauthorize
  · intro hauthorize
    exact .noKeys hauthorize h

/-- One more null changes the same in both formats. -/
theorem becomes_of_ofText {format : DocumentFormat} {text text' : String} {place : RecordPlace}
    (h : place.Gains key format text text') (hs : ofText format text = .ok s) :
    place.Becomes key s (ofText format text' = .ok ·) := by
  cases h with
  | yaml hroot hself hspells hgains =>
    have hread := yields_of_ofYaml hroot hself hs
    exact (becomes_of_yields hgains hself hread).imp fun s' hs' => ofYaml_of_yields hspells hs'
  | json hsingle hgains =>
    have hread := ofSource_of_ofJson hs
    exact (becomes_of_ofSource hgains hread).imp fun s' hs' => ofJson_of_ofSource hsingle hs'

/-- What a document with one key more and null in it holds, in either format: the same settings if
the key is that of an optional field; settings with a list without keys, for which there is no plan,
if it is `keys`; and if it is the `schedule` of a site, settings in which that site has a schedule
that is not wanted. -/
theorem null_means_absent (format : DocumentFormat) (text text' : String) (place : RecordPlace)
    (key : String) (s : Settings) (h : place.Gains key format text text')
    (hs : ofText format text = .ok s) :
    place.Becomes key s (ofText format text' = .ok ·) ∧
      (place = settings → key = "keys" → ∀ host o,
        (ofText format text' >>= fun s' => s'.plan host o) = .error .noPrivateKeys ↔
          ¬s.AuthorizeUnreadable host o) := by
  have hbecomes := becomes_of_ofText h hs
  refine ⟨hbecomes, fun hplace hkey host o => ?_⟩
  obtain ⟨-, hkeys⟩ := hbecomes.keys hplace hkey
  rw [hkeys, Attempt.ok_bind]
  exact plan_eq_noPrivateKeys_iff rfl host o

/-- A document with a site. -/
def siteDocument : String := "sites:\n- map: a\n"

/-- The only entry of `siteDocument`. -/
def sitesEntry : Node × Node :=
  (.plain "sites" none,
    .sequence none none [.mapping none none [(.plain "map" none, .plain "a" none)]])

/-- `siteDocument` with a key more, and nothing in it. -/
def siteAndKeysDocument : String := "sites:\n- map: a\nkeys:\n"

/-- `siteDocument` in JSON. -/
def siteObject : String := "\x7b\"sites\": [\x7b\"map\": \"a\"\x7d]\x7d"

/-- `siteObject` with null under the older name of a key of the site. -/
def siteAndSslObject : String := "\x7b\"sites\": [\x7b\"ssl_port\": null, \"map\": \"a\"\x7d]\x7d"

/-- The second document is the first with null keys. -/
theorem gains_siteAndKeysDocument :
    settings.Gains "keys" .yaml siteDocument siteAndKeysDocument := by
  have hspells := Document.spells_of_isSpelling (by decide +kernel :
    (Document.ofText siteDocument).isSpelling (.mapping none none ([sitesEntry] ++ [])) = true)
  have hspells' := Document.spells_of_isSpelling (by decide +kernel :
    (Document.ofText siteAndKeysDocument).isSpelling (.mapping none none
      ([sitesEntry] ++ [(.plain "keys" none, .plain "" none)])) = true)
  have hself : (Node.mapping none none ([sitesEntry] ++ [])).SelfContained := by
    simp [sitesEntry, Node.selfContained_mapping_iff, Node.selfContained_sequence_iff, Node.plain,
      Node.SelfContained.scalar]
  have hnew : ∀ entry ∈ [sitesEntry] ++ [], ∀ anchor s, entry.1 = .scalar anchor s →
      schema.fieldName? s.text ≠ schema.fieldName? "keys" := by
    simp only [List.append_nil, List.mem_singleton]
    rintro entry rfl anchor s ⟨⟩
    decide
  exact .yaml hspells.root_eq hself hspells' (.mk none none none rfl (.mk none (.inl rfl)) hnew)

/-- The second document is the first with a null port for TLS in its older spelling. -/
theorem gains_siteAndSslObject :
    (site 0).Gains "ssl_port" .json siteObject siteAndSslObject := by
  have hroot : (Json.Document.ofText siteObject).root =
      .table [(.ok "sites", .list [.table [(.ok "map", .text (.ok "a"))]])] := rfl
  have hroot' : (Json.Document.ofText siteAndSslObject).root =
      .table [(.ok "sites", .list [.table [(.ok "ssl_port", .null),
        (.ok "map", .text (.ok "a"))]])] := rfl
  refine .json rfl ?_
  rw [hroot, hroot']
  have hnew : ∀ entry ∈ ([] : List (Except Json.Break String × Source)) ++
      [(.ok "map", .text (.ok "a"))], ∀ name, entry.1 = .ok name →
        Site.schema.fieldName? name ≠ Site.schema.fieldName? "ssl_port" := by
    simp only [List.nil_append, List.mem_singleton]
    rintro entry rfl name ⟨⟩
    decide
  have hitem : Source.GainsNull Site.schema.fieldName? "ssl_port"
      (.table [(.ok "map", .text (.ok "a"))])
      (.table [(.ok "ssl_port", .null), (.ok "map", .text (.ok "a"))]) := .mk hnew
  have hlength : ([] : List Source).length = 0 := rfl
  exact Source.ItemChanges.mk [] [] hlength hitem

/-- Null keys are keys that are present and none, and a null port is no port. -/
theorem null_means_absent_site :
    (∃ s, ofText .yaml siteDocument = .ok s ∧ s.keys = none ∧
      ofText .yaml siteAndKeysDocument = .ok { s with keys := some [] } ∧
      ∀ host o, { s with keys := some [] }.plan host o = .error .noPrivateKeys) ∧
    ∃ s, ofText .json siteObject = .ok s ∧ ofText .json siteAndSslObject = .ok s := by
  constructor
  · have hcheck : (ofText .yaml siteDocument).toOption.any (·.authorize.isNone) = true := by
      decide +kernel
    obtain ⟨s, hs, hauthorize⟩ := (Option.any_eq_true _ _).mp hcheck
    have hyaml := Attempt.toOption_eq_some_iff.mp hs
    obtain ⟨hbecomes, hplan⟩ := null_means_absent .yaml siteDocument siteAndKeysDocument settings
      "keys" s gains_siteAndKeysDocument hyaml
    obtain ⟨hnone, hread⟩ := hbecomes.keys rfl rfl
    refine ⟨s, hyaml, hnone, hread, fun host o => ?_⟩
    have hfails := hplan rfl rfl host o
    rw [hread] at hfails
    refine hfails.mpr ?_
    rintro ⟨raw, hset, -⟩
    rw [hset] at hauthorize
    cases hauthorize
  · have hok : (ofText .json siteObject).isOk = true := by decide +kernel
    obtain ⟨s, hs⟩ := Attempt.exists_eq_ok_of_isOk hok
    obtain ⟨hbecomes, -⟩ := null_means_absent .json siteObject siteAndSslObject (site 0) "ssl_port"
      s gains_siteAndSslObject hs
    exact ⟨s, hs, hbecomes.same (by decide)⟩

end Settings

end Provision
