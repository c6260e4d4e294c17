import Provision.Proofs.Json.Transfer
import Provision.Proofs.Settings.Canonical
import Provision.Proofs.Yaml.Plain
import Provision.Proofs.Yaml.Twin

/-!
# Scalars spelled in two ways

Some fields take a scalar of any type for its text, so an integer may stand there bare or in quotes.
A form says where in a document such fields are. Two documents that differ in nothing else are read
alike, in both formats (`Settings.tolerates`); in YAML the fields may also be aliases, for scalars
that stand elsewhere. Integers beyond the signed range are read as floating point numbers, so bare
they are other texts than in quotes.
-/

namespace Provision

open Json (Source)
open Yaml (Document Node Path)
open Yaml.Reading (Agrees Matches)

/-! ## Spellings -/

/-- The text of a bare integer: its digits, or beyond the signed range those of the floating point
number next to it. -/
inductive BareText : ℤ → String → Prop
  | digits {n : ℤ} (hmin : -2 ^ 63 ≤ n) (hmax : n < 2 ^ 63) : BareText n (toString n)
  | rounded {n : ℤ} (hmin : 2 ^ 63 ≤ n) (hmax : n < 2 ^ 64) :
    BareText n ((Double.ofDecimal false ⟨n.toNat, 0⟩).text NumberFormat.plain)

/-- An integer that is written bare has at most 64 bits. -/
theorem BareText.isInt64 {n : ℤ} {text : String} (h : BareText n text) : IsInt64 n := by
  unfold IsInt64
  cases h with
  | digits hmin hmax => constructor <;> norm_num at * <;> omega
  | rounded hmin hmax => constructor <;> norm_num at * <;> omega

/-- In a scalar field a bare integer is its digits. -/
theorem BareText.fieldText? {n : ℤ} {text : String} (h : BareText n text) :
    (Atom.int n).fieldText? = some text := by
  have hpow : ((Nat.pow 2 63 : ℕ) : ℤ) = 2 ^ 63 := rfl
  unfold Atom.fieldText?
  rw [hpow]
  cases h with
  | digits _ hmax => exact if_pos hmax
  | rounded hmin _ => exact if_neg (not_lt.mpr hmin)

/-- A scalar that spells a text, without a tag: in quotes, or as a bare integer. -/
inductive Yaml.Node.Spells (text : String) : Node → Prop
  | quoted (anchor : Option ℕ) {style : Yaml.ScalarStyle} (h : style ≠ .plain) :
    Spells text (.scalar anchor ⟨text, none, style⟩)
  | bare (anchor : Option ℕ) {n : ℤ} (h : BareText n text) :
    Spells text (.scalar anchor ⟨toString n, none, .plain⟩)

/-- A source that spells a text: in quotes, or as a bare integer. -/
inductive Json.Source.Spells (text : String) : Source → Prop
  | quoted : Spells text (.text (.ok text))
  | bare {n : ℤ} (h : BareText n text) : Spells text (.number (some (.int n)))

theorem Yaml.Node.Spells.exists_scalar {text : String} {node : Node} (h : node.Spells text) :
    ∃ anchor s, node = .scalar anchor s ∧ s.tag = none ∧ s.untagged.fieldText? = some text := by
  cases h with
  | quoted anchor h => exact ⟨anchor, _, rfl, rfl, congrArg Atom.fieldText? (if_neg h)⟩
  | @bare anchor n h =>
    have hatom : Yaml.Scalar.untagged ⟨toString n, none, .plain⟩ = .int n :=
      (if_pos rfl).trans (Yaml.plainAtom_int h.isInt64)
    exact ⟨anchor, _, rfl, rfl, (congrArg Atom.fieldText? hatom).trans h.fieldText?⟩

theorem Yaml.Node.Spells.isSet {text : String} {node : Node} (h : node.Spells text) :
    node.IsSet := by
  obtain ⟨anchor, s, rfl, htag, htext⟩ := h.exists_scalar
  exact Yaml.Node.isSet_of_fieldText? htag htext anchor

/-- Nodes that spell related texts are twins with these texts. -/
theorem Yaml.Node.Spells.texts {T : String → String → Prop} {text text' : String}
    {node node' : Node} (h : node.Spells text) (h' : node'.Spells text') (hT : T text text') :
    Node.Texts T node node' := by
  obtain ⟨anchor, s, rfl, htag, htext⟩ := h.exists_scalar
  obtain ⟨anchor', s', rfl, htag', htext'⟩ := h'.exists_scalar
  exact .mk anchor anchor' htag htag' htext htext' hT

/-- A value that spells a text is not null. -/
theorem Json.Source.Spells.ne_null {text : String} {source : Source} (h : source.Spells text) :
    source ≠ .null := by
  cases h <;> exact nofun

/-- In a scalar field a value is the text it spells. -/
theorem Json.Source.Spells.scalarText_eq {text : String} {source : Source} (h : source.Spells text)
    (depth : ℕ) : Json.Reading.scalarText depth source = .ok text := by
  unfold Json.Reading.scalarText
  cases h with
  | quoted => cases depth <;> rfl
  | @bare n h =>
    have hcontent : Json.Reading.content depth (.number (some (.int n))) = .ok (some (.int n)) := by
      cases depth <;> rfl
    rw [hcontent, Attempt.ok_bind, Option.bind_some, h.fieldText?]
    rfl

/-! ## Forms -/

/-- Where in a part of a document fields stand that take scalars of any type. -/
inductive Form
  /-- Nowhere in the part. -/
  | fixed
  | scalar
  | list (item : Form)
  /-- The field a key stands for, the names of the fields in order, and the form of every field. -/
  | record (field? : String → Option String) (names : List String) (part : String → Form)

/-- The form of a record in which only the given fields are not fixed. -/
def Record.form {σ : Type} (r : Record σ) (parts : List (String × Form)) : Form :=
  .record r.fieldName? (r.fields.map Field.name) fun field => (parts.lookup field).getD .fixed

def SiteParam.form : Form := schema.form [("value", .scalar)]

def Site.form : Form :=
  schema.form [("port", .scalar), ("ssl", .scalar), ("params", .list SiteParam.form)]

def Settings.form : Form :=
  schema.form [("memory", .scalar), ("cpus", .scalar), ("natdnshostresolver", .scalar),
    ("sites", .list Site.form)]

/-- Two entries of mappings with one key: their values are related as the field of the key asks. What
stands under another key is passed over. -/
structure Yaml.Node.EntryTwins (d d' : Document) (ids : Set ℕ) (field? : String → Option String)
    (R : String → Node → Node → Prop) (entry entry' : Node × Node) : Prop where
  key : entry'.1 = entry.1
  within : entry.1.Within ids
  value : ∀ key name, d.text? entry.1 = some key → field? key = some name →
    entry.2.Twins d d' ids (R name) entry'.2
  skipped : ∀ key, d.text? entry.1 = some key → field? key = none → entry'.2.isCut = entry.2.isCut

/-- An entry within what two documents share is its own twin. -/
theorem Yaml.Node.EntryTwins.of_within {d d' : Document} {ids : Set ℕ}
    {field? : String → Option String} {R : String → Node → Node → Prop} {entry : Node × Node}
    (h : entry.1.Within ids ∧ entry.2.Within ids) :
    Node.EntryTwins d d' ids field? R entry entry where
  key := rfl
  within := h.1
  value _ _ _ _ := .same h.2
  skipped _ _ _ := rfl

/-- Two entries for a field, whose values are related as it asks. -/
theorem Yaml.Node.EntryTwins.named {d d' : Document} {ids : Set ℕ}
    {field? : String → Option String} {R : String → Node → Node → Prop} {keyNode node node' : Node}
    {key : String} (name : String) (hkey : d.text? keyNode = some key)
    (hname : field? key = some name) (hwithin : keyNode.Within ids)
    (h : node.Twins d d' ids (R name) node') :
    Node.EntryTwins d d' ids field? R (keyNode, node) (keyNode, node') where
  key := rfl
  within := hwithin
  value := by
    intro key' name' hkey' hname'
    obtain rfl : key = key' := Option.some.inj (hkey.symm.trans hkey')
    obtain rfl : name = name' := Option.some.inj (hname.symm.trans hname')
    exact h
  skipped := by
    intro key' hkey' hnone
    obtain rfl : key = key' := Option.some.inj (hkey.symm.trans hkey')
    rw [hname] at hnone
    cases hnone

/-- Two members of objects with one key: their values are related as the field of the key asks. What
stands under another key is passed over. -/
structure Json.Source.MemberTwins (field? : String → Option String)
    (R : String → Source → Source → Prop) (entry entry' : Except Json.Break String × Source) :
    Prop where
  key : entry'.1 = entry.1
  value : ∀ key name, entry.1 = .ok key → field? key = some name →
    entry'.2 = entry.2 ∨ R name entry.2 entry'.2
  skipped : ∀ key, entry.1 = .ok key → field? key = none →
    Json.Reading.broken? entry'.2 = Json.Reading.broken? entry.2

/-- Two members for a field, whose values are related as it asks. -/
theorem Json.Source.MemberTwins.named {field? : String → Option String}
    {R : String → Source → Source → Prop} {key : String} (name : String)
    (hname : field? key = some name) {source source' : Source}
    (h : source' = source ∨ R name source source') :
    Source.MemberTwins field? R (.ok key, source) (.ok key, source') where
  key := rfl
  value := by
    rintro _ name' ⟨⟩ hname'
    obtain rfl : name = name' := Option.some.inj (hname.symm.trans hname')
    exact h
  skipped := by
    rintro _ ⟨⟩ hnone
    rw [hname] at hnone
    cases hnone

/-- Two lists of fields that are related as the field at each position asks. -/
inductive Json.Source.ItemTwins (R : String → Source → Source → Prop) :
    List String → List Source → List Source → Prop
  | nil (names : List String) : ItemTwins R names [] []
  | cons {name : String} {names : List String} {source source' : Source}
      {rest rest' : List Source} (h : source' = source ∨ R name source source')
      (hrest : ItemTwins R names rest rest') :
      ItemTwins R (name :: names) (source :: rest) (source' :: rest')
  /-- Items behind the last field. -/
  | beyond (items : List Source) : ItemTwins R [] items items

/-- Two records, both as objects or both as lists of their fields. -/
inductive Json.Source.RecordTwins (field? : String → Option String) (names : List String)
    (R : String → Source → Source → Prop) : Source → Source → Prop
  | table {entries entries' : List (Except Json.Break String × Source)}
      (h : List.Forall₂ (MemberTwins field? R) entries entries') :
      RecordTwins field? names R (.table entries) (.table entries')
  | list {items items' : List Source} (h : ItemTwins R names items items') :
      RecordTwins field? names R (.list items) (.list items')

/-- Two lists whose items are related. -/
inductive Json.Source.ListTwins (R : Source → Source → Prop) : Source → Source → Prop
  | mk {items items' : List Source}
      (h : List.Forall₂ (fun source source' => source' = source ∨ R source source') items items') :
      ListTwins R (.list items) (.list items')

namespace Form

/-- Whether two nodes of a form differ only in its scalars, whose texts are in a relation. -/
def NodesDiffer (d d' : Document) (ids : Set ℕ) (T : String → String → Prop) :
    Form → Node → Node → Prop
  | fixed => fun _ _ => False
  | scalar => fun node node' =>
    ∃ text text', node.Spells text ∧ node'.Spells text' ∧ T text text'
  | list item => Node.Lists (Node.Twins d d' ids (item.NodesDiffer d d' ids T))
  | record field? _ part =>
    Node.Tables (Node.EntryTwins d d' ids field? fun name => (part name).NodesDiffer d d' ids T)

/-- Whether two sources of a form differ only in its scalars, whose texts are in a relation. -/
def SourcesDiffer (T : String → String → Prop) : Form → Source → Source → Prop
  | fixed => fun _ _ => False
  | scalar => fun source source' =>
    ∃ text text', source.Spells text ∧ source'.Spells text' ∧ T text text'
  | list item => Source.ListTwins (item.SourcesDiffer T)
  | record field? names part =>
    Source.RecordTwins field? names fun name => (part name).SourcesDiffer T

variable {T : String → String → Prop}

/-- Nodes that differ in spelling are not null. -/
theorem isSet_of_nodesDiffer {d d' : Document} {ids : Set ℕ} {form : Form} {node node' : Node}
    (h : form.NodesDiffer d d' ids T node node') : node.IsSet ∧ node'.IsSet := by
  cases form with
  | fixed => exact h.elim
  | scalar =>
    obtain ⟨text, text', hnode, hnode', -⟩ := h
    exact ⟨hnode.isSet, hnode'.isSet⟩
  | list item => exact Node.Lists.isSet h
  | record field? names part => exact Node.Tables.isSet h

/-- Values that differ in spelling are not null. -/
theorem ne_null_of_sourcesDiffer {form : Form} {source source' : Source}
    (h : form.SourcesDiffer T source source') : source ≠ .null ∧ source' ≠ .null := by
  cases form with
  | fixed => exact h.elim
  | scalar =>
    obtain ⟨text, text', hsource, hsource', -⟩ := h
    exact ⟨hsource.ne_null, hsource'.ne_null⟩
  | list item =>
    cases h with
    | mk h => exact ⟨nofun, nofun⟩
  | record field? names part =>
    cases h with
    | table h => exact ⟨nofun, nofun⟩
    | list h => exact ⟨nofun, nofun⟩

end Form

/-! ## Codecs -/

/-- Whether a codec reads the parts of two documents alike that differ only in the scalars of a form,
and the same where these have one text. -/
structure Codec.Tolerates {α : Type} (codec : Codec α) (form : Form) (T : String → String → Prop) :
    Prop where
  ofNode : ∀ {d d' : Document} {ids : Set ℕ}, d.Shares d' ids → ∀ {node node' : Node},
    node.Twins d d' ids (form.NodesDiffer d d' ids T) node' → ∀ place,
      Matches d d' (Alike T) (codec.ofNode place node) (codec.ofNode place node')
  ofSource : ∀ {source source' : Source}, form.SourcesDiffer T source source' → ∀ depth,
    Attempt.Rel (Alike T) (codec.ofSource depth source) (codec.ofSource depth source')

namespace Codec.Tolerates

variable {α : Type} {codec : Codec α} {form : Form} {T : String → String → Prop}

/-- A codec that reads shared nodes alike tolerates no difference at all. -/
theorem fixed (h : ∀ {d d' : Document} {ids : Set ℕ}, d.Shares d' ids → ∀ {node : Node},
    node.Within ids → ∀ place, Agrees d d' (codec.ofNode place node) (codec.ofNode place node)) :
    codec.Tolerates .fixed T where
  ofNode hd _ _ hnode place := by
    cases hnode with
    | same hwithin => exact (h hd hwithin place).alike
    | differ hfalse => exact hfalse.elim
    | behind _ _ hfalse => exact hfalse.elim
  ofSource hfalse := hfalse.elim

/-- A codec that tolerates nothing reads shared nodes alike. -/
theorem agrees (h : codec.Tolerates .fixed (· = ·)) {d d' : Document} {ids : Set ℕ}
    (hd : d.Shares d' ids) {node : Node} (hwithin : node.Within ids) (place : Yaml.Place) :
    Agrees d d' (codec.ofNode place node) (codec.ofNode place node) :=
  (h.ofNode hd (.same hwithin) place).agrees

/-- Values that differ where a codec tolerates it are read alike. -/
theorem rel_ofSource (h : codec.Tolerates form T) {source source' : Source}
    (hsource : source' = source ∨ form.SourcesDiffer T source source') (depth : ℕ) :
    Attempt.Rel (Alike T) (codec.ofSource depth source) (codec.ofSource depth source') := by
  rcases hsource with rfl | hdiffer
  · exact .refl Alike.refl _
  · exact h.ofSource hdiffer depth

/-- A scalar field tolerates another spelling. -/
theorem scalar : Codec.scalar.Tolerates .scalar T where
  ofNode hd _ _ hnode place := by
    refine Yaml.Reading.matches_scalarText hd (hnode.imp ?_) place
    rintro _ _ ⟨text, text', hspells, hspells', hT⟩
    exact hspells.texts hspells' hT
  ofSource := by
    rintro source source' ⟨text, text', hspells, hspells', hT⟩ depth
    exact .ok (hspells.scalarText_eq depth) (hspells'.scalarText_eq depth) (.of_rel hT)

/-- What may be missing tolerates what it does where it is there. -/
theorem optional (h : codec.Tolerates form T) : codec.optional.Tolerates form T where
  ofNode hd _ _ hnode place :=
    Yaml.Reading.matches_optional hd (fun _ _ => Form.isSet_of_nodesDiffer)
      (fun _ hwithin => h.ofNode hd (.same hwithin) place)
      (fun _ _ hdiffer => h.ofNode hd (.differ hdiffer) place) hnode
  ofSource := by
    intro source source' hdiffer depth
    obtain ⟨hnull, hnull'⟩ := Form.ne_null_of_sourcesDiffer hdiffer
    show Attempt.Rel _ (Json.Reading.optional _ source) (Json.Reading.optional _ source')
    rw [Json.Reading.optional_of_ne_null hnull, Json.Reading.optional_of_ne_null hnull',
      map_eq_pure_bind, map_eq_pure_bind]
    exact (h.ofSource hdiffer depth).bind fun a b hab => .ok rfl rfl (hab.map some)

/-- A list tolerates differences in its items. -/
theorem list (h : codec.Tolerates form T) : codec.list.Tolerates (.list form) T where
  ofNode hd _ _ hnode place :=
    Yaml.Reading.matches_list hd (fun place _ _ hitem => h.ofNode hd hitem place) hnode place
  ofSource := by
    rintro _ _ ⟨hitems⟩ depth
    cases depth with
    | zero => exact .error rfl rfl
    | succ depth =>
      have hread := hitems.imp fun source source' hitem => h.rel_ofSource hitem depth
      exact (Attempt.Rel.mapM hread).imp fun _ _ => Alike.list

/-- A list of what is fixed is fixed as well. -/
theorem fixedList (h : codec.Tolerates .fixed (· = ·)) : codec.list.Tolerates .fixed T :=
  .fixed fun hd _ hwithin place => (h.list.ofNode hd (.same hwithin) place).agrees

end Codec.Tolerates

/-! ## Records -/

namespace Record

variable {σ : Type} {r : Record σ} {part : String → Form} {T : String → String → Prop}

/-- Two records being read that are alike and have had the same fields. -/
structure Progress.Alike (T : String → String → Prop) (p q : Progress σ) : Prop where
  record : Provision.Alike T p.record q.record
  seen : q.seen = p.seen

/-- Entries that are twins one by one are read alike. -/
theorem matches_ofEntries {d d' : Document} {ids : Set ℕ} (hd : d.Shares d' ids)
    (hfields : ∀ field ∈ r.fields, field.codec.Tolerates (part field.name) T)
    {entries entries' : List (Node × Node)}
    (h : List.Forall₂ (Node.EntryTwins d d' ids r.fieldName? fun name =>
      (part name).NodesDiffer d d' ids T) entries entries')
    (depth : ℕ) (path : Path) {p q : Progress σ} (hpq : p.Alike T q) :
    Matches d d' (Progress.Alike T) (r.ofEntries depth path entries p)
      (r.ofEntries depth path entries' q) := by
  induction h generalizing p q with
  | nil => exact Yaml.Reading.matches_pure hpq
  | @cons entry entry' rest rest' hentry _ ih =>
    obtain ⟨keyNode, node⟩ := entry
    obtain ⟨_, node'⟩ := entry'
    obtain rfl := hentry.key
    refine ((Yaml.Reading.agrees_text hd hentry.within .fieldName path).and_ensures
      (Yaml.Reading.ensuresIn_text .fieldName path _)).bind ?_
    rintro key _ ⟨rfl, hkey⟩
    -- the key is the same, so both entries are for one field or both are passed over
    split
    · next hfind =>
      have hname : r.fieldName? key = none := by rw [fieldName?, hfind, Option.map_none]
      have hskip : Agrees d d' (Yaml.Reading.skip node) (Yaml.Reading.skip node') := by
        have hcut : node'.isCut = node.isCut := hentry.skipped key hkey hname
        unfold Yaml.Reading.skip
        rw [hcut]
        split
        · exact Yaml.Reading.matches_brokenOff hd
        · exact Yaml.Reading.agrees_pure ()
      exact hskip.bind fun _ => ih hpq
    · next field hfind =>
      have hname : r.fieldName? key = some field.name := by
        rw [fieldName?, hfind, Option.map_some]
      have hvalue := hentry.value key field.name hkey hname
      have hread := (hfields field (List.mem_of_find?_eq_some hfind)).ofNode hd hvalue
      rw [hpq.seen]
      split
      · exact Yaml.Reading.matches_throw_bind
      · exact (hread _).bind fun a b hab => ih ⟨hab.map₂ hpq.record field.put, rfl⟩

/-- Members that are twins one by one are read alike. -/
theorem rel_ofObject (hfields : ∀ field ∈ r.fields, field.codec.Tolerates (part field.name) T)
    {entries entries' : List (Except Json.Break String × Source)}
    (h : List.Forall₂ (Source.MemberTwins r.fieldName? fun name => (part name).SourcesDiffer T)
      entries entries') (depth : ℕ) {p q : Progress σ} (hpq : p.Alike T q) :
    Attempt.Rel (Progress.Alike T) (r.ofObject depth entries p)
      (r.ofObject depth entries' q) := by
  induction h generalizing p q with
  | nil => exact .ok rfl rfl hpq
  | @cons entry entry' rest rest' hentry _ ih =>
    obtain ⟨_, source⟩ := entry
    obtain ⟨spelled, source'⟩ := entry'
    obtain rfl := hentry.key
    cases spelled with
    | error cause => exact .error rfl rfl
    | ok key =>
      simp only [ofObject, Json.Reading.spelled, Attempt.ok_bind]
      split
      -- a member of no field is skipped, and breaks off in both or in neither
      · next hfind =>
        have hname : r.fieldName? key = none := by rw [fieldName?, hfind, Option.map_none]
        have hbroken : Json.Reading.broken? source' = Json.Reading.broken? source :=
          hentry.skipped key rfl hname
        unfold Json.Reading.skip
        rw [hbroken]
        exact (Attempt.Rel.refl (fun _ => rfl) _).bind fun _ _ _ => ih hpq
      · next field hfind =>
        have hname : r.fieldName? key = some field.name := by
          rw [fieldName?, hfind, Option.map_some]
        have hvalue : source' = source ∨ (part field.name).SourcesDiffer T source source' :=
          hentry.value key field.name rfl hname
        have hread := (hfields field (List.mem_of_find?_eq_some hfind)).rel_ofSource hvalue depth
        rw [hpq.seen]
        split
        · exact .error rfl rfl
        · exact hread.bind fun a b hab => ih ⟨hab.map₂ hpq.record field.put, rfl⟩

/-- Fields in their order that are twins one by one are read alike. -/
theorem rel_ofItems {fields : List (Field σ)}
    (hfields : ∀ field ∈ fields, field.codec.Tolerates (part field.name) T)
    {items items' : List Source}
    (h : Source.ItemTwins (fun name => (part name).SourcesDiffer T) (fields.map Field.name) items
      items') (depth read : ℕ) {record record' : σ} (hrecord : Alike T record record') :
    Attempt.Rel (Alike T) (r.ofItems depth fields items read record)
      (r.ofItems depth fields items' read record') := by
  induction fields generalizing items items' read record record' with
  | nil =>
    cases h with
    | nil => exact .ok rfl rfl hrecord
    -- items that are left over are refused, in both for their number
    | beyond items =>
      unfold ofItems
      split
      · exact .ok rfl rfl hrecord
      · exact .error rfl rfl
      · exact .error rfl rfl
      all_goals contradiction
  | cons field fields ih =>
    obtain ⟨hfield, hfields⟩ := List.forall_mem_cons.mp hfields
    cases h with
    | nil =>
      unfold ofItems
      split
      · exact .error rfl rfl
      · exact ih hfields (.nil _) _ hrecord
    | cons hitem hrest =>
      unfold ofItems
      exact (hfield.rel_ofSource hitem depth).bind fun a b hab =>
        ih hfields hrest _ (hab.map₂ hrecord field.put)

/-- Records that are alike are complete alike. -/
theorem matches_finish {d d' : Document} {p q : Progress σ} (h : p.Alike T q) :
    Matches d d' (Alike T) (r.finish p) (r.finish q) := by
  unfold finish
  rw [h.seen]
  split
  · exact Yaml.Reading.matches_throw _
  · exact Yaml.Reading.matches_pure h.record

/-- A record tolerates what its fields do. -/
theorem tolerates (hfields : ∀ field ∈ r.fields, field.codec.Tolerates (part field.name) T) :
    r.codec.Tolerates (.record r.fieldName? (r.fields.map Field.name) part) T where
  ofNode hd _ _ hnode place := by
    refine Yaml.Reading.matches_mapping hd (fun depth entries hwithin => ?_)
      (fun depth entries entries' hentries => ?_) hnode place
    · refine (matches_ofEntries hd hfields ?_ depth place.path ⟨.refl _, rfl⟩).bind
        fun _ _ => matches_finish
      exact List.forall₂_same.mpr fun entry hentry => .of_within (hwithin entry hentry)
    · exact (matches_ofEntries hd hfields hentries depth place.path ⟨.refl _, rfl⟩).bind
        fun _ _ => matches_finish
  ofSource := by
    intro source source' h depth
    cases h with
    | table hentries =>
      cases depth with
      | zero => exact .error rfl rfl
      | succ depth =>
        refine (rel_ofObject hfields hentries depth ⟨.refl _, rfl⟩).bind fun p q hpq => ?_
        dsimp only
        rw [hpq.seen]
        split
        · exact .error rfl rfl
        · exact .ok rfl rfl hpq.record
    | list hitems =>
      cases depth with
      | zero => exact .error rfl rfl
      | succ depth => exact rel_ofItems hfields hitems depth 0 (.refl _)

end Record

/-! ## Settings -/

/-- What is fixed in all its parts is read alike where two documents share it. -/
theorem Codec.law_fixed : Codec.Law fun _ codec _ => codec.Tolerates .fixed (· = ·) where
  text := .fixed fun hd _ hwithin place => Yaml.Reading.agrees_text hd hwithin .text place.path
  scalar := .fixed fun hd _ hwithin place =>
    (Yaml.Reading.matches_scalarText hd (.same hwithin) place).agrees
  flag := .fixed fun hd _ hwithin place => Yaml.Reading.agrees_flag hd hwithin place.path
  port := .fixed fun hd _ hwithin place => Yaml.Reading.agrees_port hd hwithin place.path
  truth := .fixed fun hd _ hwithin place => (Yaml.Reading.agrees_truth hd hwithin place).map some
  options := .fixed fun hd _ hwithin place => Yaml.Reading.agrees_options hd hwithin place
  optional h := h.optional
  list h := h.fixedList
  leaves h := h.fixedList
  presentList h := .fixed fun hd _ hwithin place =>
    (h.fixedList.optional.agrees hd hwithin place).map _
  record _ _ hfields := .fixed fun hd _ hwithin place =>
    ((@Record.tolerates _ _ (fun _ => .fixed) _ hfields).ofNode hd (.same hwithin) place).agrees

section

variable {T : String → String → Prop}

/-- What is fixed is so whichever texts are in the relation. -/
theorem Codec.Tolerates.anyRel {α : Type} {codec : Codec α}
    (h : codec.Tolerates .fixed (· = ·)) : codec.Tolerates .fixed T :=
  .fixed fun hd _ hwithin place => h.agrees hd hwithin place

/-- A parameter tolerates another spelling of its value. -/
theorem SiteParam.tolerates : schema.codec.Tolerates form T := by
  refine Record.tolerates ?_
  unfold schema
  simp only [List.forall_mem_cons]
  exact ⟨Codec.law_fixed.text.anyRel, .scalar, by simp⟩

/-- A site tolerates other spellings of its ports and parameters. -/
theorem Site.tolerates : schema.codec.Tolerates form T := by
  have law := Codec.law_fixed
  have htext := law.text.anyRel (T := T)
  refine Record.tolerates ?_
  unfold schema
  simp only [List.forall_mem_cons]
  exact ⟨htext, htext.optional, htext.optional, .optional .scalar, .optional .scalar,
    .optional (.list SiteParam.tolerates), law.truth.anyRel, by simp⟩

end

namespace Settings

theorem tolerates {T : String → String → Prop} : schema.codec.Tolerates form T := by
  have law := Codec.law_fixed
  have htext := law.text.anyRel (T := T)
  have hflag := law.flag.anyRel (T := T)
  refine Record.tolerates ?_
  unfold schema
  simp only [List.forall_mem_cons]
  exact ⟨htext.optional, htext.optional, htext.optional, htext.optional, htext.optional,
    (Network.obeys law).fixedList, .optional .scalar, .optional .scalar, .optional .scalar,
    hflag.optional, (PortMapping.obeys law).fixedList, hflag.optional, htext.optional,
    (law.presentList law.text).anyRel, (FileCopy.obeys law).fixedList, (Folder.obeys law).fixedList,
    .list Site.tolerates, htext.optional, law.text.fixedList, by simp⟩

/-- Whether two documents differ only in the scalars of fields that take scalars of any type, whose
texts are in a relation. The anchors are those under which two YAML documents have the same nodes. -/
inductive Respelled (T : String → String → Prop) : DocumentFormat → String → String → Prop
  | yaml {text text' : String} {root root' : Node} (ids : Set ℕ)
      (hroot : (Document.ofText text).root = some root)
      (hroot' : (Document.ofText text').root = some root')
      (hmore : (Document.ofText text').hasMore = (Document.ofText text).hasMore)
      (hshares : (Document.ofText text).Shares (Document.ofText text') ids)
      (h : root.Twins (Document.ofText text) (Document.ofText text') ids
        (form.NodesDiffer (Document.ofText text) (Document.ofText text') ids T) root') :
      Respelled T .yaml text text'
  | json {text text' : String}
      (hmore : (Json.Document.ofText text').hasMore = (Json.Document.ofText text).hasMore)
      (h : form.SourcesDiffer T (Json.Document.ofText text).root (Json.Document.ofText text').root) :
      Respelled T .json text text'

/-- Such documents fail alike, or hold settings that are the same where the texts are. -/
theorem rel_ofText {T : String → String → Prop} {format : DocumentFormat} {text text' : String}
    (h : Respelled T format text text') :
    Attempt.Rel (Alike T) (ofText format text) (ofText format text') := by
  cases h with
  | @yaml text text' root root' ids hroot hroot' hmore hshares h =>
    have hread := tolerates.ofNode hshares h .root 0
    have hread' : Attempt.Rel (fun read read' => Alike T read.1 read'.1 ∧ read'.2 = read.2)
        (schema.ofNode .root root (Document.ofText text) 0)
        (schema.ofNode .root root' (Document.ofText text') 0) := hread
    have hbroken := hshares.brokenBy
    show Attempt.Rel _ (ofYaml text) (ofYaml text')
    unfold ofYaml Document.run
    rw [hroot, hroot', hmore, hbroken]
    dsimp only
    -- what is wrong behind the root is wrong in both documents alike
    cases hread' with
    | error hfault hfault' =>
      rw [hfault, hfault']
      exact .error rfl rfl
    | ok hok hok' halike =>
      rw [hok, hok']
      dsimp only
      split
      · exact .error rfl rfl
      · exact .error rfl rfl
      · split
        · exact .error rfl rfl
        · exact .ok rfl rfl halike.1
  | json hmore h =>
    have hread : Attempt.Rel (Alike T)
        (schema.ofSource Json.depthLimit (Json.Document.ofText text).root)
        (schema.ofSource Json.depthLimit (Json.Document.ofText text').root) :=
      tolerates.ofSource h Json.depthLimit
    show Attempt.Rel _ (ofJson text) (ofJson text')
    unfold ofJson Json.Document.run
    rw [hmore]
    cases hread with
    | error hfault hfault' =>
      rw [hfault, hfault']
      exact .error rfl rfl
    | ok hok hok' halike =>
      rw [hok, hok']
      dsimp only
      split
      · exact .error rfl rfl
      · exact .ok rfl rfl halike

end Settings

end Provision
