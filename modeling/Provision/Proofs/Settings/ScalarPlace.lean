import Provision.Proofs.Settings.Origin
import Provision.Proofs.Settings.Respelling

/-!
# Where the text of a scalar goes

A document leads to a scalar through the fields of records and the items of lists, in YAML also
through aliases, and in JSON also through lists that stand for records. What the scalar spells is
what a record that is read from the document has in that place: a field is set once at most, so none
of the other entries takes the text away (`Record.shows`).
-/

namespace Provision

open Json (Source)
open Yaml (Document Node Path)
open Yaml.Reading (EnsuresIn)

/-! ## Leads -/

/-- How to come to a scalar in a part of a document. -/
inductive Lead
  | here
  | item (index : ℕ) (lead : Lead)
  /-- The field a key stands for, the names of the fields in order, and the name of the one to
  follow. -/
  | field (field? : String → Option String) (names : List String) (name : String) (lead : Lead)

/-- The lead through a field of a record. -/
def Record.lead {σ : Type} (r : Record σ) (name : String) (lead : Lead) : Lead :=
  .field r.fieldName? (r.fields.map Field.name) name lead

/-- Whether an entry under a key of a field has a value with a property. -/
def Yaml.Document.HasEntry (d : Document) (field? : String → Option String) (name : String)
    (P : Node → Prop) (entries : List (Node × Node)) : Prop :=
  ∃ entry ∈ entries, d.IsEntryFor field? name entry ∧ P entry.2

/-- Whether an entry under a key of a field has a value with a property. -/
def Json.Source.HasEntry (field? : String → Option String) (name : String) (P : Source → Prop)
    (entries : List (Except Json.Break String × Source)) : Prop :=
  ∃ entry ∈ entries, IsEntryFor field? name entry ∧ P entry.2

namespace Lead

variable {text : String}

/-- Whether a lead comes to a node that spells a text. -/
def NodeHas (d : Document) (text : String) : Lead → Node → Prop
  | here => fun node => ∃ target, d.target? node = some target ∧ target.Spells text
  | item index lead => fun node =>
    ∃ item, (d.items node)[index]? = some item ∧ lead.NodeHas d text item
  | field field? _ name lead => fun node =>
    d.HasEntry field? name (lead.NodeHas d text) (d.entries node)

/-- Whether a lead comes to a source that spells a text. -/
def SourceHas (text : String) : Lead → Source → Prop
  | here, source => source.Spells text
  | item index lead, .list items => ∃ item, items[index]? = some item ∧ lead.SourceHas text item
  | field field? _ name lead, .table entries =>
    Source.HasEntry field? name (lead.SourceHas text) entries
  | field _ names name lead, .list items =>
    ∃ item, (names.zip items).lookup name = some item ∧ lead.SourceHas text item
  | _, _ => False

/-- A node that has a text at a place leads, through aliases, to one that is set. -/
theorem exists_target {d : Document} {lead : Lead} {node : Node} (h : lead.NodeHas d text node) :
    ∃ target, d.target? node = some target ∧ target.IsSet ∧ lead.NodeHas d text target := by
  cases lead with
  | here =>
    obtain ⟨target, htarget, hspells⟩ := h
    exact ⟨target, htarget, hspells.isSet, target,
      Document.target?_of_isTarget hspells.isSet.isTarget, hspells⟩
  | item index lead =>
    obtain ⟨item, hitem, h⟩ := h
    unfold Document.items at hitem
    split at hitem
    · next anchor tag nodes htarget =>
      exact ⟨_, htarget, .sequence anchor tag nodes, item, hitem, h⟩
    · cases hitem
  | field field? names name lead =>
    obtain ⟨entry, hentry, h⟩ := h
    unfold Document.entries at hentry
    split at hentry
    · next anchor tag entries htarget =>
      exact ⟨_, htarget, .mapping anchor tag entries, entry, hentry, h⟩
    · cases hentry

/-- A value that has a text at a place is not null. -/
theorem ne_null_of_sourceHas {lead : Lead} {source : Source} (h : lead.SourceHas text source) :
    source ≠ .null := by
  rintro rfl
  cases lead with
  | here => exact Source.Spells.ne_null h rfl
  | item index lead => exact h
  | field field? names name lead => exact h

end Lead

/-- Lists that are related entry by entry are related at every place. -/
theorem exists_getElem?_of_forall₂ {α β : Type} {R : α → β → Prop} {as : List α} {bs : List β}
    (h : List.Forall₂ R as bs) {index : ℕ} {a : α} (ha : as[index]? = some a) :
    ∃ b, bs[index]? = some b ∧ R a b := by
  obtain ⟨hindex, rfl⟩ := List.getElem?_eq_some_iff.mp ha
  have hindex' : index < bs.length := h.length_eq ▸ hindex
  exact ⟨bs[index], List.getElem?_eq_getElem hindex', h.get hindex hindex'⟩

/-! ## Codecs -/

/-- Whether what a codec reads where a lead comes to a scalar has a property. -/
structure Codec.Shows {α : Type} (codec : Codec α) (lead : Lead) (text : String) (P : α → Prop) :
    Prop where
  ofNode : ∀ {d : Document} {node : Node}, lead.NodeHas d text node → ∀ place,
    EnsuresIn d (codec.ofNode place node) P
  ofSource : ∀ {source : Source}, lead.SourceHas text source → ∀ depth,
    (codec.ofSource depth source).Ensures P

namespace Codec.Shows

variable {α : Type} {codec : Codec α} {lead : Lead} {text : String} {P Q : α → Prop}

theorem imp (h : codec.Shows lead text P) (himp : ∀ a, P a → Q a) : codec.Shows lead text Q where
  ofNode hnode place := (h.ofNode hnode place).imp himp
  ofSource hsource depth := (h.ofSource hsource depth).imp himp

theorem scalar : Codec.scalar.Shows .here text (· = text) where
  ofNode := by
    rintro d node ⟨target, htarget, hspells⟩ place
    obtain ⟨anchor, s, rfl, htag, htext⟩ := hspells.exists_scalar
    have hcontent : EnsuresIn d (Yaml.Reading.content place.depth place.path node)
        (· = some s.untagged) := by
      have hscalar : EnsuresIn d (Yaml.Reading.content place.depth place.path (.scalar anchor s))
          (· = some s.untagged) := by
        intro count found count' hfound
        rw [Yaml.Reading.yields_content_of_fieldText? htag htext] at hfound
        cases hfound
        rfl
      have htarget' := Node.isTarget_scalar anchor s
      cases hdepth : place.depth with
      | zero =>
        rw [hdepth] at hscalar
        exact Yaml.Reading.ensuresIn_behind htarget htarget' hscalar
      | succ depth =>
        rw [hdepth] at hscalar
        exact Yaml.Reading.ensuresIn_behind htarget htarget' hscalar
    refine hcontent.bind ?_
    rintro _ rfl
    rw [Option.bind_some, htext]
    exact Yaml.Reading.ensuresIn_pure rfl
  ofSource := by
    intro source hspells depth s hs
    have hread : Json.Reading.scalarText depth source = .ok s := hs
    rw [Source.Spells.scalarText_eq hspells depth] at hread
    exact (Except.ok.inj hread).symm

/-- What may be missing is there and shows the text. -/
theorem optional (h : codec.Shows lead text P) :
    codec.optional.Shows lead text fun found => ∃ a, found = some a ∧ P a where
  ofNode := by
    intro d node hnode place
    obtain ⟨target, htarget, hset, hhas⟩ := Lead.exists_target hnode
    have hread : EnsuresIn d (Yaml.Reading.optional (codec.ofNode place) target)
        fun found => ∃ a, found = some a ∧ P a := by
      rw [Yaml.Reading.optional_of_isSet hset]
      exact (h.ofNode hhas place).map fun a ha => ⟨a, rfl, ha⟩
    unfold Yaml.Reading.optional at hread
    rw [Yaml.Reading.resolve_of_isTarget hset.isTarget, pure_bind] at hread
    refine (Yaml.Reading.ensuresIn_resolve node).bind fun found hfound => ?_
    obtain rfl : target = found := Option.some.inj (htarget.symm.trans hfound)
    exact hread
  ofSource := by
    intro source hsource depth
    show (Json.Reading.optional _ source).Ensures _
    rw [Json.Reading.optional_of_ne_null (Lead.ne_null_of_sourceHas hsource)]
    exact (h.ofSource hsource depth).map fun a ha => ⟨a, rfl, ha⟩

/-- A list shows the text at the item that has it. -/
theorem list (h : codec.Shows lead text P) (index : ℕ) :
    codec.list.Shows (.item index lead) text fun as => ∃ a, as[index]? = some a ∧ P a where
  ofNode := by
    rintro d node ⟨item, hitem, hhas⟩ place
    have hread : ∀ place node, EnsuresIn d (codec.ofNode place node)
        fun a => lead.NodeHas d text node → P a := fun place node count a count' ha hnode =>
      h.ofNode hnode place count a count' ha
    refine (Yaml.Reading.ensuresIn_list hread place node).imp fun as has => ?_
    obtain ⟨a, ha, hshows⟩ := exists_getElem?_of_forall₂ has hitem
    exact ⟨a, ha, hshows hhas⟩
  ofSource := by
    intro source hsource depth as has
    cases source with
    | list items =>
      obtain ⟨item, hitem, hhas⟩ := hsource
      cases depth with
      | zero => cases has
      | succ depth =>
        have hread := Attempt.mapM_eq_ok_iff.mp has
        obtain ⟨a, ha, hshows⟩ := exists_getElem?_of_forall₂ hread hitem
        exact ⟨a, ha, h.ofSource hhas depth a hshows⟩
    | _ => exact hsource.elim

end Codec.Shows

/-! ## Records -/

namespace Record

variable {σ : Type} {r : Record σ}

/-- A field of a record that sets a part of its own: the record has what was put there. -/
structure Owns (r : Record σ) (field : Field σ) : Prop extends r.Part field field.get where
  own : ∀ a record, field.get (field.put a record) = a

/-- A record has in a field what a document shows under a key of the field. -/
theorem shows (hr : r.Lawful) {field : Field σ} (h : r.Owns field) {lead : Lead} {text : String}
    {P : field.α → Prop} (hcodec : field.codec.Shows lead text P) :
    r.codec.Shows (r.lead field.name lead) text fun record => P (field.get record) where
  ofNode := by
    rintro d node ⟨entry, hmem, hfor, hhas⟩ place
    have hread : ∀ place node, EnsuresIn d (field.codec.ofNode place node) fun a =>
        ∀ record, lead.NodeHas d text node → P (field.get (field.put a record)) := by
      intro place node count a count' ha record hnode
      rw [h.own]
      exact hcodec.ofNode hnode place count a count' ha
    refine (h.toPart.ensuresIn_mapping (Q := fun node a => lead.NodeHas d text node → P a) hr hread
      place node).imp ?_
    exact fun record hset => hset.given entry hmem hfor hhas
  ofSource := by
    intro source hsource depth
    have hread : ∀ source depth, (field.codec.ofSource depth source).Ensures fun a =>
        ∀ record, lead.SourceHas text source → P (field.get (field.put a record)) := by
      intro source depth a ha record hsource
      rw [h.own]
      exact hcodec.ofSource hsource depth a ha
    cases source with
    | table entries =>
      obtain ⟨entry, hmem, hfor, hhas⟩ := hsource
      refine (h.toPart.ensures_table (Q := fun source a => lead.SourceHas text source → P a) hr
        (fun entry _ => hread entry.2) depth).imp ?_
      exact fun record hset => hset.given entry hmem hfor hhas
    | list items =>
      obtain ⟨item, hitem, hhas⟩ := hsource
      obtain ⟨front, back, hpairs, -⟩ := List.lookup_eq_some_iff.mp hitem
      have hmem : (field.name, item) ∈ (r.fields.map Field.name).zip items := by
        rw [hpairs]
        exact List.mem_append_right front List.mem_cons_self
      refine (h.toPart.ensures_list (Q := fun source a => lead.SourceHas text source → P a) hr
        (fun item _ => hread item) depth).imp ?_
      exact fun record hset => hset.given _ hmem rfl hhas
    | _ => exact hsource.elim

end Record

end Provision
