import Provision.Proofs.Attempt
import Provision.Proofs.Json.Reading
import Provision.Proofs.Settings.Codec
import Provision.Proofs.Settings.Layout
import Provision.Proofs.Yaml.Targets

/-!
# Where parts of a record come from

What of a record only one field sets comes from the entry for that field, and is blank if there is
none. The fields of a record are read one after the other, in whatever order the entries stand;
since no field is read twice, what has been read of one is what its entry gives (`SetOnce`). In a
list of its fields a record has the entry at the position of the field.
-/

namespace Provision

open Yaml (Document Node Path)
open Yaml.Reading (EnsuresIn)
open Json (Source)

/-! ## Entries -/

/-- Whether an entry has a key for a field. -/
def Yaml.Document.IsEntryFor (d : Document) (field? : String → Option String) (name : String)
    (entry : Node × Node) : Prop :=
  ∃ key, d.text? entry.1 = some key ∧ field? key = some name

namespace Json.Source

/-- The items of the list that a source is. -/
def items : Source → List Source
  | .list items => items
  | _ => []

/-- The value of the first entry with a key. -/
def find? (key : String) (entries : List (Except Json.Break String × Source)) : Option Source :=
  (entries.find? fun entry => entry.1.toOption == some key).map (·.2)

/-- Whether an entry has a key for a field. -/
def IsEntryFor (field? : String → Option String) (name : String)
    (entry : Except Json.Break String × Source) : Prop :=
  ∃ key, entry.1 = .ok key ∧ field? key = some name

/-- The value that a source has for a field of a record with these fields: the one under the field's
name in an object, and the one at the field's position in a list. -/
def member? (names : List String) (name : String) : Source → Option Source
  | .table entries => find? name entries
  | .list items => (names.zip items).lookup name
  | _ => none

end Json.Source

/-- A list is read from its items in order. -/
theorem Json.Reading.ensures_listItems {α : Type} {read : ℕ → Source → Json.Reading α}
    {P : Source → α → Prop}
    (h : ∀ depth source, source.Scanned → Ensures (read depth source) (P source))
    (depth : ℕ) {source : Source} (hsource : source.Scanned) :
    Ensures (list read depth source) (List.Forall₂ P source.items) := by
  unfold list
  split
  · next items =>
    split
    · exact ensures_throw _
    · next depth =>
      cases hsource with
      | list hitems =>
        intro as has
        have hread := Attempt.mapM_eq_ok_iff.mp has
        have hmem : ∀ item ∈ items, item.Scanned := hitems
        -- the induction is on the items that were read, and these two speak of all of them
        clear has hitems
        show List.Forall₂ P items as
        induction hread with
        | nil => exact .nil
        | cons hhead _ ih =>
          obtain ⟨hitem, hrest⟩ := List.forall_mem_cons.mp hmem
          exact .cons (h depth _ hitem _ hhead) (ih hrest)
  · exact ensures_mismatch _ _

/-! ## What is set once -/

/-- How a part of a record comes from entries, if it was `before` and is `after` them: an entry for
its field gives it and no other entry changes it, and none is for the field once that was set. -/
structure SetOnce {ε β : Type} (isFor : ε → Prop) (Q : ε → β → Prop) (entries : List ε)
    (wasSet : Prop) (before after : β) : Prop where
  given : ∀ entry ∈ entries, isFor entry → Q entry after
  kept : (∀ entry ∈ entries, ¬isFor entry) → after = before
  once : wasSet → ∀ entry ∈ entries, ¬isFor entry

namespace SetOnce

variable {ε β : Type} {isFor : ε → Prop} {Q : ε → β → Prop} {entry : ε} {entries : List ε}
  {wasSet : Prop} {before after : β}

theorem nil : SetOnce isFor Q [] wasSet before before where
  given := List.forall_mem_nil _
  kept _ := rfl
  once _ := List.forall_mem_nil _

/-- An entry for something else changes nothing. -/
theorem cons_other (hother : ¬isFor entry) (h : SetOnce isFor Q entries wasSet before after) :
    SetOnce isFor Q (entry :: entries) wasSet before after where
  given := List.forall_mem_cons.mpr ⟨fun hfor => absurd hfor hother, h.given⟩
  kept hnone := h.kept (List.forall_mem_cons.mp hnone).2
  once hset := List.forall_mem_cons.mpr ⟨hother, h.once hset⟩

/-- What an entry for the field gives stays, since no entry behind it is for the field. -/
theorem cons_self (hfor : isFor entry) (hunset : ¬wasSet) {isSet : Prop} (hset : isSet) {now : β}
    (hnow : Q entry now) (h : SetOnce isFor Q entries isSet now after) :
    SetOnce isFor Q (entry :: entries) wasSet before after where
  given := by
    have hlater := h.once hset
    have hafter : Q entry after := h.kept hlater ▸ hnow
    refine List.forall_mem_cons.mpr ⟨fun _ => hafter, fun later hmem hagain => ?_⟩
    exact absurd hagain (hlater later hmem)
  kept hnone := absurd hfor (hnone entry List.mem_cons_self)
  once hwas := absurd hwas hunset

/-- Where entries give a function of their values, the part is that of the entry that is found. -/
theorem eq_getD {γ : Type} {value : ε → γ} {f : γ → β}
    (h : SetOnce isFor (fun entry b => b = f (value entry)) entries wasSet before after)
    {found : Option γ} (hsome : ∀ a ∈ found, ∃ entry ∈ entries, isFor entry ∧ value entry = a)
    (hnone : found = none → ∀ entry ∈ entries, ¬isFor entry) :
    after = (found.map f).getD before := by
  cases found with
  | none => exact h.kept (hnone rfl)
  | some a =>
    obtain ⟨entry, hmem, hfor, rfl⟩ := hsome a rfl
    exact h.given entry hmem hfor

/-- The entry that is found may be the first one for the field. -/
theorem eq_find? {γ : Type} {value : ε → γ} {f : γ → β}
    (h : SetOnce isFor (fun entry b => b = f (value entry)) entries wasSet before after)
    {p : ε → Bool} (hp : ∀ entry, p entry = true ↔ isFor entry) :
    after = (((entries.find? p).map value).map f).getD before := by
  refine h.eq_getD (fun a ha => ?_) (fun hnone entry hmem => ?_)
  · obtain ⟨entry, hfind, rfl⟩ := Option.map_eq_some_iff.mp ha
    exact ⟨entry, List.mem_of_find?_eq_some hfind, (hp entry).mp (List.find?_some hfind), rfl⟩
  · rw [← hp]
    exact List.find?_eq_none.mp (Option.map_eq_none_iff.mp hnone) entry hmem

/-- In a list of pairs it is the one under the name. -/
theorem eq_lookup {γ : Type} {name : String} {pairs : List (String × γ)} {f : γ → β}
    (h : SetOnce (·.1 = name) (fun pair b => b = f pair.2) pairs wasSet before after) :
    after = ((pairs.lookup name).map f).getD before := by
  refine h.eq_getD (fun a ha => ?_) (fun hnone pair hmem => ?_)
  · obtain ⟨front, back, rfl, -⟩ := List.lookup_eq_some_iff.mp ha
    exact ⟨(name, a), List.mem_append_right front List.mem_cons_self, rfl, rfl⟩
  · have hne := List.lookup_eq_none_iff.mp hnone pair hmem
    rw [bne_iff_ne] at hne
    exact hne.symm

end SetOnce

namespace Record

variable {σ β : Type} {r : Record σ}

/-- The fields of a record differ in name. -/
theorem eq_of_name_eq (hr : r.Lawful) {field other : Field σ} (hfield : field ∈ r.fields)
    (hother : other ∈ r.fields) (hname : other.name = field.name) : other = field := by
  have hfind := find?_name hr.distinct other hother
  rw [hname, find?_name hr.distinct field hfield] at hfind
  exact (Option.some.inj hfind).symm

/-- What of a kind of record only one field sets, and that field. -/
structure Part (r : Record σ) (field : Field σ) (get : σ → β) : Prop where
  mem : field ∈ r.fields
  kept : ∀ other ∈ r.fields, other.name ≠ field.name → ∀ b record,
    get (other.put b record) = get record

namespace Part

variable {field : Field σ} {get : σ → β} {key : String}

/-- A key for the name of the field is for the field. -/
theorem find?_of_fieldName? (h : r.Part field get) (hr : r.Lawful)
    (hname : r.fieldName? key = some field.name) :
    r.fields.find? (·.goesBy key) = some field := by
  obtain ⟨other, hfind, heq⟩ := Option.map_eq_some_iff.mp hname
  rw [hfind, eq_of_name_eq hr h.mem (List.mem_of_find?_eq_some hfind) heq]

/-- A field that documents call by one name has no other key. -/
theorem fieldName?_eq_iff (h : r.Part field get) (hr : r.Lawful) (hone : field.otherName = none) :
    r.fieldName? key = some field.name ↔ key = field.name := by
  constructor
  · intro hname
    have hgoes := List.find?_some (h.find?_of_fieldName? hr hname)
    unfold Field.goesBy at hgoes
    have hother : (field.otherName == some key) = false := by
      rw [hone]
      rfl
    rw [hother, Bool.or_false] at hgoes
    exact (beq_iff_eq.mp hgoes).symm
  · rintro rfl
    rw [fieldName?, find?_name hr.distinct field h.mem, Option.map_some]

theorem name_ne_of_fieldName?_ne {other : Field σ}
    (hfind : r.fields.find? (·.goesBy key) = some other)
    (hname : r.fieldName? key ≠ some field.name) : other.name ≠ field.name := by
  intro heq
  rw [fieldName?, hfind, Option.map_some, heq] at hname
  exact hname rfl

/-! ## YAML -/

section

variable {d : Document} {Q : Node → β → Prop} {f : Node → β}

/-- The entries for the field set the part, each as it is read and no two of them. -/
theorem ensuresIn_ofEntries (h : r.Part field get) (hr : r.Lawful)
    (hread : ∀ place node, EnsuresIn d (field.codec.ofNode place node) fun a =>
      ∀ record, Q node (get (field.put a record)))
    (depth : ℕ) (path : Path) (entries : List (Node × Node)) (sofar : Progress σ) :
    EnsuresIn d (r.ofEntries depth path entries sofar) fun progress =>
      SetOnce (d.IsEntryFor r.fieldName? field.name) (fun entry => Q entry.2) entries
        (field.name ∈ sofar.seen) (get sofar.record) (get progress.record) := by
  induction entries generalizing sofar with
  | nil => exact Yaml.Reading.ensuresIn_pure .nil
  | cons entry rest ih =>
    obtain ⟨keyNode, node⟩ := entry
    refine (Yaml.Reading.ensuresIn_text .fieldName path keyNode).bind fun key hkey => ?_
    by_cases hname : r.fieldName? key = some field.name
    · rw [h.find?_of_fieldName? hr hname]
      dsimp only
      -- a field that was given before is refused
      split
      · exact Yaml.Reading.ensures_throw_bind.within d
      next hunseen =>
      have hunset : field.name ∉ sofar.seen := mt List.contains_iff_mem.mpr hunseen
      refine (hread _ node).bind fun a ha => (ih _).imp fun progress hrest => ?_
      exact .cons_self ⟨key, hkey, hname⟩ hunset List.mem_cons_self (ha sofar.record) hrest
    -- a key of another field, or of none, leaves the part as it is
    · have hother : ¬d.IsEntryFor r.fieldName? field.name (keyNode, node) := by
        rintro ⟨key', hkey', hname'⟩
        obtain rfl : key = key' := Option.some.inj (hkey.symm.trans hkey')
        exact hname hname'
      split
      · exact Yaml.Reading.ensuresIn_bind fun _ => (ih sofar).imp fun _ => .cons_other hother
      next other hfind =>
      have hne := name_ne_of_fieldName?_ne hfind hname
      split
      · exact Yaml.Reading.ensures_throw_bind.within d
      refine Yaml.Reading.ensuresIn_bind fun a => (ih _).imp fun progress hrest => ?_
      rw [List.mem_cons, or_iff_right hne.symm,
        h.kept other (List.mem_of_find?_eq_some hfind) hne] at hrest
      exact hrest.cons_other hother

/-- Nothing was set before the first entry of a mapping. -/
theorem ensuresIn_mapping (h : r.Part field get) (hr : r.Lawful)
    (hread : ∀ place node, EnsuresIn d (field.codec.ofNode place node) fun a =>
      ∀ record, Q node (get (field.put a record))) (place : Yaml.Place) (node : Node) :
    EnsuresIn d (r.ofNode place node) fun record =>
      SetOnce (d.IsEntryFor r.fieldName? field.name) (fun entry => Q entry.2) (d.entries node)
        (field.name ∈ []) (get r.blank) (get record) := by
  refine Yaml.Reading.ensuresIn_mapping (P := fun entries record =>
    SetOnce (d.IsEntryFor r.fieldName? field.name) (fun entry => Q entry.2) entries
      (field.name ∈ []) (get r.blank) (get record)) (fun depth entries => ?_) place node
  refine (h.ensuresIn_ofEntries hr hread depth place.path entries ⟨r.blank, []⟩).bind ?_
  rintro ⟨record, seen⟩ hset
  dsimp only
  split
  · exact (Yaml.Reading.ensures_throw _).within d
  · exact Yaml.Reading.ensuresIn_pure hset

/-- What a field with one name sets comes from the entry with that name. -/
theorem ensuresIn_ofNode (h : r.Part field get) (hr : r.Lawful) (hone : field.otherName = none)
    (hread : ∀ place node, EnsuresIn d (field.codec.ofNode place node) fun a =>
      ∀ record, get (field.put a record) = f node) {name : String} (hname : field.name = name)
    (place : Yaml.Place) (node : Node) : EnsuresIn d (r.ofNode place node) fun record =>
      get record = ((d.find? name (d.entries node)).map f).getD (get r.blank) := by
  subst hname
  refine (h.ensuresIn_mapping (Q := fun node b => b = f node) hr hread place node).imp ?_
  intro record hset
  refine hset.eq_find? fun entry => ?_
  unfold Document.IsEntryFor
  simp only [h.fieldName?_eq_iff hr hone, exists_eq_right, beq_iff_eq]

end

/-! ## JSON -/

section

variable {Q : Source → β → Prop} {f : Source → β} {depth : ℕ}

theorem ensures_ofObject (h : r.Part field get) (hr : r.Lawful)
    {entries : List (Except Json.Break String × Source)}
    (hread : ∀ entry ∈ entries, (field.codec.ofSource depth entry.2).Ensures fun a =>
      ∀ record, Q entry.2 (get (field.put a record))) (sofar : Progress σ) :
    (r.ofObject depth entries sofar).Ensures fun progress =>
      SetOnce (Source.IsEntryFor r.fieldName? field.name) (fun entry => Q entry.2) entries
        (field.name ∈ sofar.seen) (get sofar.record) (get progress.record) := by
  induction entries generalizing sofar with
  | nil => exact Json.Reading.ensures_pure .nil
  | cons entry rest ih =>
    obtain ⟨spelled, source⟩ := entry
    obtain ⟨hsource, hrest⟩ := List.forall_mem_cons.mp hread
    cases spelled with
    | error cause => exact Json.Reading.ensures_throw_bind
    | ok key =>
      refine Json.Reading.Ensures.bind (P := (· = key)) (Json.Reading.ensures_pure rfl) ?_
      rintro key rfl
      by_cases hname : r.fieldName? key = some field.name
      · rw [h.find?_of_fieldName? hr hname]
        dsimp only
        -- a field that was given before is refused
        split
        · exact Json.Reading.ensures_throw_bind
        next hunseen =>
        have hunset : field.name ∉ sofar.seen := mt List.contains_iff_mem.mpr hunseen
        refine hsource.bind fun a ha => (ih hrest _).imp fun progress hset => ?_
        exact .cons_self ⟨key, rfl, hname⟩ hunset List.mem_cons_self (ha sofar.record) hset
      -- a key of another field, or of none, leaves the part as it is
      · have hother : ¬Source.IsEntryFor r.fieldName? field.name (.ok key, source) := by
          rintro ⟨_, ⟨⟩, hname'⟩
          exact hname hname'
        split
        · exact Json.Reading.ensures_bind fun _ => (ih hrest sofar).imp fun _ => .cons_other hother
        next other hfind =>
        have hne := name_ne_of_fieldName?_ne hfind hname
        split
        · exact Json.Reading.ensures_throw_bind
        refine Json.Reading.ensures_bind fun a => (ih hrest _).imp fun progress hset => ?_
        rw [List.mem_cons, or_iff_right hne.symm,
          h.kept other (List.mem_of_find?_eq_some hfind) hne] at hset
        exact hset.cons_other hother

/-- The item at the position of the field sets the part. A field that is not among those that are
left has no item there. -/
theorem ensures_ofItems (h : r.Part field get) (hr : r.Lawful) {fields : List (Field σ)}
    (hfields : ∀ other ∈ fields, other ∈ r.fields)
    (hnames : fields.Pairwise fun earlier later => earlier.name ≠ later.name)
    {items : List Source}
    (hread : ∀ item ∈ items, (field.codec.ofSource depth item).Ensures fun a =>
      ∀ record, Q item (get (field.put a record))) (read : ℕ) (record : σ) :
    (r.ofItems depth fields items read record).Ensures fun result =>
      SetOnce (·.1 = field.name) (fun pair => Q pair.2) ((fields.map Field.name).zip items)
        (field.name ∉ fields.map Field.name) (get record) (get result) := by
  fun_induction ofItems r depth fields items read record with
  | case1 read record => exact Json.Reading.ensures_pure .nil
  | case2 => exact Json.Reading.ensures_throw _
  | case3 => exact Json.Reading.ensures_throw _
  | case4 => exact Json.Reading.ensures_throw _
  | case5 other fields read record hrequired ih =>
    -- fields beyond the end of the list keep their blank values
    have hrest := ih (List.forall_mem_cons.mp hfields).2 (List.pairwise_cons.mp hnames).2 hread
    rw [List.zip_nil_right] at hrest ⊢
    refine hrest.imp fun result hset => ?_
    rw [hset.kept (List.forall_mem_nil _)]
    exact .nil
  | case6 other fields source rest read record ih =>
    obtain ⟨hother, hfields⟩ := List.forall_mem_cons.mp hfields
    obtain ⟨hlater, hnames⟩ := List.pairwise_cons.mp hnames
    obtain ⟨hsource, hrest⟩ := List.forall_mem_cons.mp hread
    rw [List.map_cons, List.zip_cons_cons]
    by_cases hname : other.name = field.name
    · obtain rfl := eq_of_name_eq hr h.mem hother hname
      have hgone : other.name ∉ fields.map Field.name := by
        rw [List.mem_map]
        rintro ⟨later, hmem, heq⟩
        exact hlater later hmem heq.symm
      refine hsource.bind fun a ha => (ih a hfields hnames hrest).imp fun result hset => ?_
      exact .cons_self rfl (not_not.mpr List.mem_cons_self) hgone (ha record) hset
    · refine Json.Reading.ensures_bind fun a => (ih a hfields hnames hrest).imp ?_
      intro result hset
      rw [h.kept other hother hname] at hset
      rw [List.mem_cons, or_iff_right (Ne.symm hname)]
      exact hset.cons_other hname

/-- Nothing was set before the first entry of an object. -/
theorem ensures_table (h : r.Part field get) (hr : r.Lawful)
    {entries : List (Except Json.Break String × Source)}
    (hread : ∀ entry ∈ entries, ∀ depth, (field.codec.ofSource depth entry.2).Ensures fun a =>
      ∀ record, Q entry.2 (get (field.put a record))) (depth : ℕ) :
    (r.ofSource depth (.table entries)).Ensures fun record =>
      SetOnce (Source.IsEntryFor r.fieldName? field.name) (fun entry => Q entry.2) entries
        (field.name ∈ []) (get r.blank) (get record) := by
  cases depth with
  | zero => exact Json.Reading.ensures_throw _
  | succ depth =>
    refine (h.ensures_ofObject hr (fun entry hentry => hread entry hentry depth)
      ⟨r.blank, []⟩).bind ?_
    rintro ⟨record, seen⟩ hset
    dsimp only
    split
    · exact Json.Reading.ensures_throw _
    · exact Json.Reading.ensures_pure hset

/-- A list of a record's fields has the item for a field at the position of the field. -/
theorem ensures_list (h : r.Part field get) (hr : r.Lawful) {items : List Source}
    (hread : ∀ item ∈ items, ∀ depth, (field.codec.ofSource depth item).Ensures fun a =>
      ∀ record, Q item (get (field.put a record))) (depth : ℕ) :
    (r.ofSource depth (.list items)).Ensures fun record =>
      SetOnce (·.1 = field.name) (fun pair => Q pair.2) ((r.fields.map Field.name).zip items)
        (field.name ∉ r.fields.map Field.name) (get r.blank) (get record) := by
  cases depth with
  | zero => exact Json.Reading.ensures_throw _
  | succ depth =>
    exact h.ensures_ofItems hr (fun _ hother => hother) (name_ne_of_distinct hr.distinct)
      (fun item hitem => hread item hitem depth) 0 r.blank

/-- What a field with one name sets comes from the entry with that name, or from the item at the
position of the field. -/
theorem ensures_ofSource (h : r.Part field get) (hr : r.Lawful) (hone : field.otherName = none)
    (hread : ∀ depth source, source.Scanned → (field.codec.ofSource depth source).Ensures fun a =>
      ∀ record, get (field.put a record) = f source) {name : String} (hname : field.name = name)
    (depth : ℕ) {source : Source} (hsource : source.Scanned) :
    (r.ofSource depth source).Ensures fun record => get record =
      ((source.member? (r.fields.map Field.name) name).map f).getD (get r.blank) := by
  subst hname
  cases source with
  | table entries =>
    cases hsource with
    | table hentries =>
      refine (h.ensures_table (Q := fun source b => b = f source) hr
        (fun entry hentry depth => hread depth entry.2 (hentries entry hentry)) depth).imp ?_
      intro record hset
      refine hset.eq_find? fun entry => ?_
      unfold Source.IsEntryFor
      simp only [h.fieldName?_eq_iff hr hone, exists_eq_right, beq_iff_eq]
      rcases entry.1 with cause | key <;> simp [Except.toOption]
  | list items =>
    cases hsource with
    | list hitems =>
      refine (h.ensures_list (Q := fun source b => b = f source) hr
        (fun item hitem depth => hread depth item (hitems item hitem)) depth).imp ?_
      exact fun record hset => hset.eq_lookup
  | _ =>
    -- nothing else is read as a record
    cases depth <;> exact Json.Reading.ensures_mismatch _ _

end

end Part

end Record

end Provision
