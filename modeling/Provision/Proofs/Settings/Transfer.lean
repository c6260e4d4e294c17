import Provision.Proofs.Json.Transfer
import Provision.Proofs.Settings.Document
import Provision.Proofs.Settings.Law

/-!
# JSON and YAML documents with one tree

A JSON document and a YAML document with the same tree hold the same settings, if the JSON one holds
any and writes its records as objects (`Settings.ofYaml_of_ofJson`). The law is one of codecs:
whatever a codec reads from a source it reads from the node of that source.
-/

namespace Provision

open Json (Source)
open Json.Reading (ensures_mismatch ensures_pure ensures_throw ensures_throw_bind)
open Yaml (Node Path)
open Yaml.Reading (yields_pure)

namespace Layout

/-- Whether every record of a source is written as an object, and none as a list of its fields. -/
def inObjects : Layout → Source → Bool
  | .list item, .list items => items.all item.inObjects
  | .record _ _, .list _ => false
  | .record field? part, .table entries => entries.all fun entry =>
    match entry.1.toOption.bind field? with
    | some field => (part field).inObjects entry.2
    | none => true
  | _, _ => true

/-- Records within a list are objects exactly if those within each item are. -/
theorem inObjects_list_iff {item : Layout} {items : List Source} :
    (list item).inObjects (.list items) = true ↔ ∀ source ∈ items, item.inObjects source = true := by
  rw [inObjects, List.all_eq_true]

/-- Records within an object are objects exactly if those within its members for fields are. -/
theorem inObjects_record_iff {field? : String → Option String} {part : String → Layout}
    {entries : List (Except Json.Break String × Source)} :
    (record field? part).inObjects (.table entries) = true ↔ ∀ entry ∈ entries,
      ∀ name, entry.1.toOption.bind field? = some name → (part name).inObjects entry.2 = true := by
  rw [inObjects, List.all_eq_true]
  refine forall₂_congr fun entry _ => ?_
  cases entry.1.toOption.bind field? <;> simp

theorem inObjects_list_leaf (source : Source) : inObjects (.list .leaf) source = true := by
  cases source with
  | list items => exact inObjects_list_iff.mpr fun _ _ => rfl
  | _ => rfl

end Layout

/-! ## Codecs -/

namespace Codec

variable {α : Type}

/-- Whether a codec reads from the node of a source, wherever it stands, what it reads from a source
whose records are objects. -/
def Transfers (codec : Codec α) (layout : Layout) : Prop :=
  ∀ source node, source.node? = some node → layout.inObjects source = true →
    ∀ depth depth', depth ≤ depth' → ∀ path,
      Json.Reading.Transfers (codec.ofSource depth source) (codec.ofNode ⟨depth', path⟩ node)

theorem transfers_text : text.Transfers .leaf :=
  fun _ _ h _ _ _ _ path => Json.Reading.transfers_text h path

theorem transfers_scalar : scalar.Transfers .leaf :=
  fun _ _ h _ depth depth' _ path => Json.Reading.transfers_scalarText h depth depth' path

theorem transfers_flag : flag.Transfers .leaf :=
  fun _ _ h _ _ _ _ path => Json.Reading.transfers_flag h path

theorem transfers_port : port.Transfers .leaf :=
  fun _ _ h _ _ _ _ path => Json.Reading.transfers_port h path

theorem transfers_truth : truth.Transfers .leaf :=
  fun _ _ h _ _ _ hdepth path => (Json.Reading.transfers_truth hdepth h path).map some

theorem transfers_options : options.Transfers .leaf :=
  fun _ _ h _ _ _ hdepth path => Json.Reading.transfers_options hdepth h path

variable {codec : Codec α} {layout : Layout}

/-- What may be missing is transferred if what is there is. -/
theorem Transfers.optional (h : codec.Transfers layout) : codec.optional.Transfers layout :=
  fun source node hnode hobjects depth depth' hdepth path =>
    Json.Reading.transfers_optional hnode (h source node hnode hobjects depth depth' hdepth path)

/-- A list is transferred if its items are. -/
theorem Transfers.list (h : codec.Transfers layout) : codec.list.Transfers (.list layout) := by
  intro source node hnode hobjects depth depth' hdepth path
  unfold Codec.list Json.Reading.list
  dsimp only
  split
  · obtain ⟨nodes, hnodes, rfl⟩ := Source.node?_list hnode
    split
    · exact ensures_throw _
    · next depth =>
      obtain ⟨below, rfl⟩ : ∃ below, depth' = below + 1 := ⟨depth' - 1, by omega⟩
      have hitems := Layout.inObjects_list_iff.mp hobjects
      have hlist := Json.Reading.transfers_items hnodes (fun item hitem node hnode path =>
        h item node hnode (hitems item hitem) depth below (by omega) path) path 0
      exact (hlist.yields_bind (Yaml.Reading.yields_resolve (by simp)) rfl).located path
  · exact ensures_mismatch .list _

/-- A list of parts without records has none either. -/
theorem Transfers.leaves (h : codec.Transfers .leaf) : codec.list.Transfers .leaf :=
  fun source node hnode _ => h.list source node hnode (Layout.inObjects_list_leaf source)

theorem Transfers.presentList (h : codec.Transfers .leaf) : codec.presentList.Transfers .leaf :=
  fun source node hnode hobjects depth depth' hdepth path =>
    (h.leaves.optional source node hnode hobjects depth depth' hdepth path).map _

end Codec

/-! ## Records -/

namespace Record

variable {σ : Type} {r : Record σ} {part : String → Layout}

/-- Members are read as the entries of the mapping with the same tree are. -/
theorem transfers_ofObject
    (hfields : ∀ field ∈ r.fields, field.codec.Transfers (part field.name)) {depth depth' : ℕ}
    (hdepth : depth ≤ depth') (path : Path)
    {entries : List (Except Json.Break String × Source)} {nodes : List (Node × Node)}
    (hnodes : Source.entryNodes? entries = some nodes)
    (hobjects : ∀ entry ∈ entries, ∀ name, entry.1.toOption.bind r.fieldName? = some name →
      (part name).inObjects entry.2 = true) (sofar : Progress σ) :
    Json.Reading.Transfers (r.ofObject depth entries sofar)
      (r.ofEntries depth' path nodes sofar) := by
  induction entries generalizing nodes sofar with
  | nil =>
    cases hnodes
    exact ensures_pure (yields_pure sofar)
  | cons entry rest ih =>
    obtain ⟨spelled, source⟩ := entry
    obtain ⟨key, node, more, rfl, hnode, hmore, rfl⟩ := Source.exists_of_entryNodes?_cons hnodes
    obtain ⟨hentry, hrest⟩ := List.forall_mem_cons.mp hobjects
    refine Json.Reading.Transfers.yields_bind ?_
      (Yaml.Reading.yields_text_scalar .fieldName path none _) rfl
    simp only [ofObject, Json.Reading.spelled, Attempt.ok_bind]
    cases hfind : r.fields.find? (·.goesBy key) with
    | none =>
      -- the node of what is passed over is passed over too, since nothing in it is cut off
      have hskip : Yaml.Reading.Yields (Yaml.Reading.skip node) () := by
        unfold Yaml.Reading.skip
        rw [(Source.selfContained_of_node? hnode).isCut_eq_false]
        exact yields_pure ()
      exact Json.Reading.Transfers.bind (fun _ _ => hskip) fun _ => ih hmore hrest sofar
    | some field =>
      have hname : r.fieldName? key = some field.name := by
        rw [fieldName?, hfind, Option.map_some]
      have hfield := hfields field (List.mem_of_find?_eq_some hfind) source node hnode
        (hentry field.name hname) depth depth' hdepth (path.under (Source.quoted key))
      dsimp only
      split
      · exact ensures_throw_bind
      · exact hfield.bind fun a => ih hmore hrest _

/-- A record is read from its node as it is from an object. -/
theorem transfers (hfields : ∀ field ∈ r.fields, field.codec.Transfers (part field.name)) :
    r.codec.Transfers (.record r.fieldName? part) := by
  intro source node hnode hobjects depth depth' hdepth path
  show Json.Reading.Transfers (r.ofSource depth source) (r.ofNode ⟨depth', path⟩ node)
  unfold ofSource
  split
  · exact ensures_throw _
  · exact ensures_throw _
  · next depth entries =>
    obtain ⟨nodes, hnodes, rfl⟩ := Source.node?_table hnode
    obtain ⟨below, rfl⟩ : ∃ below, depth' = below + 1 := ⟨depth' - 1, by omega⟩
    refine Json.Reading.transfers_mapping ?_ path
    have hentries := transfers_ofObject hfields (by omega : depth ≤ below) path hnodes
      (Layout.inObjects_record_iff.mp hobjects) ⟨r.blank, []⟩
    refine hentries.bind fun ⟨record, seen⟩ => ?_
    dsimp only
    cases r.missing? seen with
    | none => exact ensures_pure (yields_pure record)
    | some name => exact ensures_throw _
  · -- a list of its fields is none of a record's objects
    cases hobjects
  · exact ensures_mismatch _ _

end Record

/-! ## Settings -/

/-- Transfer between the formats goes through all the ways codecs are put together. -/
theorem Codec.law_transfers : Codec.Law fun _ codec layout => codec.Transfers layout where
  text := transfers_text
  scalar := transfers_scalar
  flag := transfers_flag
  port := transfers_port
  truth := transfers_truth
  options := transfers_options
  optional := Transfers.optional
  list := Transfers.list
  leaves := Transfers.leaves
  presentList := Transfers.presentList
  record _ _ := Record.transfers

namespace Settings

/-- Settings are read from the node of a document as they are from the document. -/
theorem transfers : schema.codec.Transfers layout :=
  obeys Codec.law_transfers

/-- Settings that a JSON document holds are held by every YAML document with the same tree, if the
records of the first are objects. -/
theorem ofYaml_of_ofJson {json yaml : String} {root : Node} {s : Settings}
    (hroot : (Json.Document.ofText json).root.node? = some root)
    (hobjects : layout.inObjects (Json.Document.ofText json).root = true)
    (hspells : (Yaml.Document.ofText yaml).Spells root) (h : ofJson json = .ok s) :
    ofYaml yaml = .ok s := by
  have hdepth : Json.depthLimit ≤ 128 := by decide
  have hyields := Json.Document.ensures_run
    (transfers _ root hroot hobjects Json.depthLimit 128 hdepth .root) (eq_ok_of_mapError h)
  exact ofYaml_of_yields hspells hyields

/-- A document with texts and other values that look alike. -/
def jsonDocument : String :=
  "\x7b\"keys\": null, \"folders\": [" ++
    "\x7b\"map\": \"1\", \"to\": \"~\", \"options\": \x7b\"b\": -1, \"a\": null\x7d\x7d]\x7d"

/-- The tree of `jsonDocument` in block style. -/
def blockDocument : String :=
  "\"keys\": null\n\"folders\":\n" ++
    "- \"map\": \"1\"\n  \"to\": \"~\"\n  \"options\":\n    \"b\": -1\n    \"a\": null\n"

/-- The same tree gives the same settings in both formats. -/
theorem ofYaml_jsonDocument : ∃ s root,
    (Json.Document.ofText jsonDocument).root.node? = some root ∧
      layout.inObjects (Json.Document.ofText jsonDocument).root = true ∧
      (Yaml.Document.ofText blockDocument).Spells root ∧ ofJson jsonDocument = .ok s ∧
      ofYaml blockDocument = .ok s := by
  have hobjects : layout.inObjects (Json.Document.ofText jsonDocument).root = true := by
    decide +kernel
  have hspelling : (Json.Document.ofText jsonDocument).root.node?.any
      (Yaml.Document.ofText blockDocument).isSpelling = true := by decide +kernel
  have hread : (ofJson jsonDocument).isOk = true := by decide +kernel
  cases hroot : (Json.Document.ofText jsonDocument).root.node? with
  | none =>
    rw [hroot] at hspelling
    cases hspelling
  | some root =>
    rw [hroot, Option.any_some] at hspelling
    have hspells := Yaml.Document.spells_of_isSpelling hspelling
    cases hs : ofJson jsonDocument with
    | error e =>
      rw [hs] at hread
      cases hread
    | ok s =>
      exact ⟨s, root, rfl, hobjects, hspells, rfl, ofYaml_of_ofJson hroot hobjects hspells hs⟩

end Settings

end Provision
