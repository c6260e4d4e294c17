import Provision.Proofs.Json.Reading
import Provision.Proofs.Yaml.Value
import Provision.Settings.Codec

/-!
# Laws of codecs

What a codec gives from either format of documents has a property when what its parts give does
(`Gives`), and a datum that a codec restores is read back from the nodes it is written as
(`Restores`). For records both follow from the same of their fields (`Record.gives`,
`Record.restores`): the fields of a lawful record are told apart by name, none that a document has
to have is left out in writing, and putting the written fields into the blank record makes up the
whole.
-/

namespace Provision

open Yaml (Node Path)
open Yaml.Reading (Yields)

namespace Codec

variable {α : Type} {depth : ℕ}

/-- Whether everything that a codec gives, in a place where collections nest up to `depth` deep,
has a property. -/
structure Gives (codec : Codec α) (depth : ℕ) (P : α → Prop) : Prop where
  ofNode : ∀ path node, (codec.ofNode ⟨depth, path⟩ node).Ensures P
  ofSource : ∀ source : Json.Source, source.Bounded → (codec.ofSource depth source).Ensures P

/-- What holds of every value holds of what a codec gives. -/
theorem gives_of_forall {codec : Codec α} {P : α → Prop} (h : ∀ a, P a) : codec.Gives depth P where
  ofNode _ _ _ _ a _ _ := h a
  ofSource _ _ a _ := h a

theorem Gives.imp {codec : Codec α} {P Q : α → Prop} (h : codec.Gives depth P)
    (himp : ∀ a, P a → Q a) : codec.Gives depth Q where
  ofNode path node document count a count' ha := himp a (h.ofNode path node document count a count' ha)
  ofSource source hsource a ha := himp a (h.ofSource source hsource a ha)

/-- Options that were read can be read again once they are written. -/
theorem gives_options : options.Gives (depth + 1) (Options.Readable depth) where
  ofNode := Yaml.Reading.ensures_options depth
  ofSource _ := Json.Reading.ensures_options depth

/-- What holds of the items a codec gives holds of all items of a list. -/
theorem Gives.list {codec : Codec α} {P : α → Prop} (h : codec.Gives depth P) :
    codec.list.Gives (depth + 1) fun as => ∀ a ∈ as, P a where
  ofNode := Yaml.Reading.ensures_list h.ofNode
  ofSource _ := Json.Reading.ensures_list h.ofSource

/-- Whether the value that a datum is written as can stand in a place where collections nest up to
`depth` deep, and the datum is read back there from its nodes. -/
structure Restores (codec : Codec α) (depth : ℕ) (a : α) : Prop where
  readable : (codec.toValue a).Readable depth
  untagged : (codec.toValue a).IsUntagged
  yields : ∀ node, Node.ofValue? none (codec.toValue a) = some node → ∀ path,
    Yields (codec.ofNode ⟨depth, path⟩ (node.asWritten false)) a

theorem isUntagged_of_atom (atom : Atom) {value : Value} (h : Value.ofAtom? atom = some value) :
    value.IsUntagged := by
  intro name inner hvalue
  rw [hvalue] at h
  cases atom <;> cases h

/-- A text is restored, whatever it looks like. -/
theorem restores_text (s : String) : text.Restores depth s where
  readable := .text s
  untagged := isUntagged_of_atom (.text s) rfl
  yields _ hnode := Yaml.Reading.yields_text hnode .text false

/-- A scalar field is restored as the text that it is. -/
theorem restores_scalar (s : String) : scalar.Restores depth s where
  readable := .text s
  untagged := isUntagged_of_atom (.text s) rfl
  yields _ hnode _ := Yaml.Reading.yields_scalarText hnode false _

theorem restores_flag (b : Bool) : flag.Restores depth b where
  readable := .bool b
  untagged := isUntagged_of_atom (.bool b) rfl
  yields _ hnode := Yaml.Reading.yields_flag b hnode false

/-- A port is restored: it is in the range of ports. -/
theorem restores_port (n : UInt16) : port.Restores depth n where
  readable := .int (by
    have hn : n.toNat < Nat.pow 2 64 := Nat.lt_of_lt_of_le n.toNat_lt (by decide)
    exact ⟨by omega, by omega⟩)
  untagged := isUntagged_of_atom (.int n.toNat) rfl
  yields _ hnode := Yaml.Reading.yields_port n hnode false

/-- A truth is restored as a truth that is present. -/
theorem restores_truth (b : Bool) : truth.Restores depth (some b) where
  readable := .bool b
  untagged := isUntagged_of_atom (.bool b) rfl
  yields node hnode path := by
    have hb : Value.Readable depth (.bool b) := .bool b
    have hvalue := Yaml.Reading.yields_optional hb (by simp) (isUntagged_of_atom (.bool b) rfl)
      hnode (Yaml.Reading.yields_value hb (.inl rfl) hnode false path)
    refine Yields.map (hvalue.bind ?_) some
    cases b with
    | true => exact Yaml.Reading.yields_pure true
    | false => exact Yaml.Reading.yields_pure false

/-- Readable options are restored with their order. -/
theorem restores_options {options : Options} (h : options.Readable depth) :
    Codec.options.Restores (depth + 1) options where
  readable := by
    refine .table ?_ (fun entry hentry => ?_) fun entry hentry => ?_
    · refine List.pairwise_map.mpr ((List.pairwise_map.mp h.nodup).imp fun hne => ?_)
      exact beq_eq_false_iff_ne.mpr hne
    · obtain ⟨option, -, rfl⟩ := List.mem_map.mp hentry
      exact .text option.1
    · obtain ⟨option, hoption, rfl⟩ := List.mem_map.mp hentry
      exact h.value option hoption
  untagged := Value.isUntagged_table _
  yields _ hnode := Yaml.Reading.yields_options h hnode false

/-- What is set is restored as set, unless it is written as null. -/
theorem Restores.optional {codec : Codec α} {a : α} (h : codec.Restores depth a)
    (hnull : codec.toValue a ≠ .null) : codec.optional.Restores depth (some a) where
  readable := h.readable
  untagged := h.untagged
  yields node hnode path :=
    Yaml.Reading.yields_optional h.readable hnull h.untagged hnode (h.yields node hnode path)

/-- A list is restored if each of its items is. -/
theorem restores_list {codec : Codec α} {as : List α} (h : ∀ a ∈ as, codec.Restores depth a) :
    codec.list.Restores (depth + 1) as where
  readable := .list fun value hvalue => by
    obtain ⟨a, ha, rfl⟩ := List.mem_map.mp hvalue
    exact (h a ha).readable
  untagged := Value.isUntagged_list _
  yields node hnode path := by
    unfold Node.ofValue? at hnode
    obtain ⟨nodes, hnodes, rfl⟩ := Option.map_eq_some_iff.mp hnode
    have hitems := Yaml.Reading.yields_writtenItems
      (fun a ha node hnode path => (h a ha).yields node hnode path) hnodes path 0
    exact Yields.located ((Yaml.Reading.yields_resolve (by simp [Node.asWritten])).bind hitems) path

/-- A present list is restored as present, also when it is empty. -/
theorem restores_presentList {codec : Codec α} {as : List α}
    (h : ∀ a ∈ as, codec.Restores depth a) :
    codec.presentList.Restores (depth + 1) (some as) where
  readable := (restores_list h).readable
  untagged := Value.isUntagged_list _
  yields node hnode path := by
    have hread := ((restores_list h).optional (by intro heq; cases heq)).yields node hnode path
    exact hread.map fun as => some (as.getD [])

end Codec

/-! ## Fields -/

namespace Field

variable {σ : Type}

/-- A record after a field was read as it is written for `s`. -/
def restore (s record : σ) (field : Field σ) : σ :=
  if field.omitted (field.get s) then record else field.put (field.get s) record

/-- A field that is left out is not written. -/
theorem written?_of_omitted {field : Field σ} {s : σ} (h : field.omitted (field.get s) = true) :
    field.written? s = none :=
  if_pos h

/-- Any other field is written under its own name. -/
theorem written?_of_not_omitted {field : Field σ} {s : σ}
    (h : field.omitted (field.get s) = false) :
    field.written? s = some (.text field.name, field.codec.toValue (field.get s)) :=
  if_neg (Bool.eq_false_iff.mp h)

/-- A field that is written is not one that is left out. -/
theorem not_omitted_of_written? (field : Field σ) {s : σ} {entry : Value × Value}
    (h : field.written? s = some entry) : field.omitted (field.get s) = false := by
  cases homitted : field.omitted (field.get s) with
  | false => rfl
  | true => rw [written?_of_omitted homitted] at h; cases h

/-- The entry of a written field is its name with its value. -/
theorem eq_of_written? (field : Field σ) {s : σ} {entry : Value × Value}
    (h : field.written? s = some entry) :
    entry = (.text field.name, field.codec.toValue (field.get s)) := by
  rw [written?_of_not_omitted (field.not_omitted_of_written? h)] at h
  exact (Option.some.inj h).symm

theorem restore_of_omitted {field : Field σ} {s : σ} (h : field.omitted (field.get s) = true)
    (record : σ) : field.restore s record = record :=
  if_pos h

theorem restore_of_not_omitted {field : Field σ} {s : σ}
    (h : field.omitted (field.get s) = false) (record : σ) :
    field.restore s record = field.put (field.get s) record :=
  if_neg (Bool.eq_false_iff.mp h)

/-- A field makes no difference where it is left out, if its blank value is in place already. -/
theorem foldl_restore_cons {s record : σ} {field : Field σ} {fields : List (Field σ)}
    (h : ∀ a, field.omitted a = true → field.put a record = record)
    (hrest : fields.foldl (restore s) (field.put (field.get s) record) = s) :
    (field :: fields).foldl (restore s) record = s := by
  rw [List.foldl_cons]
  unfold restore at hrest ⊢
  split
  · next homitted =>
    rw [h _ homitted] at hrest
    exact hrest
  · exact hrest

/-- Putting nothing into a blank record leaves it blank. -/
theorem put_of_isNone {β : Type} {put : Option β → σ → σ} {record : σ}
    (h : put none record = record) (a : Option β) (ha : a.isNone = true) : put a record = record := by
  rw [Option.isNone_iff_eq_none.mp ha, h]

/-- Putting no items into a blank record leaves it blank. -/
theorem put_of_isEmpty {β : Type} {put : List β → σ → σ} {record : σ}
    (h : put [] record = record) (a : List β) (ha : a.isEmpty = true) : put a record = record := by
  rw [List.isEmpty_iff.mp ha, h]

/-- What a field does with a datum of a record that is written. -/
def Restores (field : Field σ) (depth : ℕ) (s : σ) : Prop :=
  field.omitted (field.get s) = false → field.codec.Restores depth (field.get s)

theorem goesBy_name (field : Field σ) : field.goesBy field.name = true := by
  unfold goesBy
  rw [beq_self_eq_true, Bool.true_or]

end Field

/-! ## Records -/

namespace Record

variable {σ : Type} {depth : ℕ}

/-- Whether every field of a record keeps a property, given what its codec gives. -/
def Keeps (r : Record σ) (depth : ℕ) (P : σ → Prop) : Prop :=
  ∀ field ∈ r.fields,
    field.codec.Gives depth fun a => ∀ record, P record → P (field.put a record)

/-- Reading the entries of a mapping keeps what every field keeps. -/
theorem ensures_ofEntries {r : Record σ} {P : σ → Prop} (h : r.Keeps depth P) (path : Path)
    (entries : List (Node × Node)) {sofar : Progress σ} (hsofar : P sofar.record) :
    (r.ofEntries depth path entries sofar).Ensures fun progress => P progress.record := by
  induction entries generalizing sofar with
  | nil => exact Yaml.Reading.ensures_pure hsofar
  | cons entry rest ih =>
    obtain ⟨keyNode, node⟩ := entry
    refine Yaml.Reading.ensures_bind fun key => ?_
    split
    · -- what stands under an unknown key is passed over
      exact Yaml.Reading.ensures_bind fun _ => ih hsofar
    · next field hfield =>
      have hmem := List.mem_of_find?_eq_some hfield
      split
      · exact Yaml.Reading.ensures_throw_bind
      · refine ((h field hmem).ofNode _ node).bind fun a ha => ih ?_
        exact ha sofar.record hsofar

/-- Reading the members of an object keeps what every field keeps. -/
theorem ensures_ofObject {r : Record σ} {P : σ → Prop} (h : r.Keeps depth P)
    {entries : List (Except Json.Break String × Json.Source)}
    (hentries : ∀ entry ∈ entries, entry.2.Bounded) {sofar : Progress σ}
    (hsofar : P sofar.record) :
    (r.ofObject depth entries sofar).Ensures fun progress => P progress.record := by
  induction entries generalizing sofar with
  | nil => exact Json.Reading.ensures_pure hsofar
  | cons entry rest ih =>
    obtain ⟨key, source⟩ := entry
    obtain ⟨hsource, hrest⟩ := List.forall_mem_cons.mp hentries
    refine Json.Reading.ensures_bind fun name => ?_
    split
    · exact Json.Reading.ensures_bind fun _ => ih hrest hsofar
    · next field hfield =>
      have hmem := List.mem_of_find?_eq_some hfield
      split
      · exact Json.Reading.ensures_throw_bind
      · refine ((h field hmem).ofSource source hsource).bind fun a ha => ih hrest ?_
        exact ha sofar.record hsofar

/-- Reading fields by their order keeps what every field keeps. -/
theorem ensures_ofItems {r : Record σ} {P : σ → Prop} (h : r.Keeps depth P)
    {fields : List (Field σ)} (hfields : ∀ field ∈ fields, field ∈ r.fields)
    {sources : List Json.Source} (hsources : ∀ source ∈ sources, source.Bounded) (read : ℕ)
    {record : σ} (hrecord : P record) :
    (r.ofItems depth fields sources read record).Ensures P := by
  fun_induction ofItems r depth fields sources read record with
  | case1 read record => exact Json.Reading.ensures_pure hrecord
  | case2 => exact Json.Reading.ensures_throw _
  | case3 => exact Json.Reading.ensures_throw _
  | case4 => exact Json.Reading.ensures_throw _
  | case5 field fields read record hrequired ih =>
    exact ih (fun field hfield => hfields field (List.mem_cons_of_mem _ hfield)) hsources hrecord
  | case6 field fields source rest read record ih =>
    obtain ⟨hsource, hrest⟩ := List.forall_mem_cons.mp hsources
    obtain ⟨hfield, hfields⟩ := List.forall_mem_cons.mp hfields
    refine ((h field hfield).ofSource source hsource).bind fun a ha => ?_
    exact ih a hfields hrest (ha record hrecord)

/-- A property of records that every field keeps holds of every record that is read. -/
theorem gives {r : Record σ} {P : σ → Prop} (hblank : P r.blank) (h : r.Keeps depth P) :
    r.codec.Gives (depth + 1) P where
  ofNode path node := by
    show (r.ofNode ⟨depth + 1, path⟩ node).Ensures P
    refine Yaml.Reading.ensures_mapping (fun entries => ?_) ?_ path node
    · refine (ensures_ofEntries h path entries hblank).bind fun progress hprogress => ?_
      obtain ⟨record, seen⟩ := progress
      dsimp only
      -- a field that is missing is a fault, and changes no record
      split
      · exact Yaml.Reading.ensures_throw _
      · exact Yaml.Reading.ensures_pure hprogress
    · refine Yaml.Reading.ensures_pure_bind ?_
      dsimp only
      split
      · exact Yaml.Reading.ensures_throw _
      · exact Yaml.Reading.ensures_pure hblank
  ofSource source hsource := by
    show (r.ofSource (depth + 1) source).Ensures P
    unfold ofSource
    split
    · exact Json.Reading.ensures_throw _
    · exact Json.Reading.ensures_throw _
    · next heq =>
      cases heq
      cases hsource with
      | table hentries =>
        refine (ensures_ofObject h hentries hblank).bind fun progress hprogress => ?_
        obtain ⟨record, seen⟩ := progress
        dsimp only
        split
        · exact Json.Reading.ensures_throw _
        · exact Json.Reading.ensures_pure hprogress
    · next heq =>
      cases heq
      cases hsource with
      | list hitems => exact ensures_ofItems h (fun _ hfield => hfield) hitems 0 hblank
    · exact Json.Reading.ensures_mismatch _ _

/-- The laws of a kind of record whose data are written and read back. -/
structure Lawful (r : Record σ) : Prop where
  /-- No field goes by the name of a later one. -/
  distinct : r.fields.Pairwise fun field later => field.goesBy later.name = false
  /-- What a document has to have is never left out. -/
  written : ∀ field ∈ r.fields, field.required = true → ∀ a, field.omitted a = false

/-- Fields of which none goes by the name of a later one have different names. -/
theorem name_ne_of_distinct {fields : List (Field σ)}
    (h : fields.Pairwise fun field later => field.goesBy later.name = false) :
    fields.Pairwise fun field later => field.name ≠ later.name := by
  refine h.imp fun {field later} hlater heq => ?_
  rw [← heq, field.goesBy_name] at hlater
  cases hlater

/-- Each field is found by its name. -/
theorem find?_name {fields : List (Field σ)}
    (h : fields.Pairwise fun field later => field.goesBy later.name = false) :
    ∀ field ∈ fields, fields.find? (·.goesBy field.name) = some field := by
  induction fields with
  | nil => simp
  | cons first rest ih =>
    obtain ⟨hfirst, hrest⟩ := List.pairwise_cons.mp h
    intro field hfield
    rcases List.mem_cons.mp hfield with rfl | hmem
    · rw [List.find?_cons_of_pos (by exact field.goesBy_name)]
    · rw [List.find?_cons_of_neg (by simp [hfirst field hmem])]
      exact ih hrest field hmem

/-- The entries of the fields that are written restore them on top of the record so far. -/
theorem yields_ofEntries {r : Record σ} (sofar : Progress σ) {s : σ} {fields : List (Field σ)}
    (hfind : ∀ field ∈ fields, r.fields.find? (·.goesBy field.name) = some field)
    (hnames : fields.Pairwise fun field later => field.name ≠ later.name)
    (hfields : ∀ field ∈ fields, field.Restores depth s) {nodes : List (Node × Node)}
    (hnodes : Yaml.nodesOfEntries? (fields.filterMap (·.written? s)) = some nodes) (path : Path)
    (hseen : ∀ field ∈ fields, field.name ∉ sofar.seen) :
    ∃ seen, Yields (r.ofEntries depth path (Node.entriesAsWritten nodes) sofar)
        ⟨fields.foldl (Field.restore s) sofar.record, seen⟩ ∧
      (∀ name ∈ sofar.seen, name ∈ seen) ∧
      ∀ field ∈ fields, field.omitted (field.get s) = false → field.name ∈ seen := by
  induction fields generalizing nodes sofar with
  | nil =>
    cases hnodes
    exact ⟨sofar.seen, Yaml.Reading.yields_pure sofar, fun _ hname => hname, by simp⟩
  | cons field rest ih =>
    obtain ⟨hfind, hfindRest⟩ := List.forall_mem_cons.mp hfind
    obtain ⟨hname, hnamesRest⟩ := List.pairwise_cons.mp hnames
    obtain ⟨hfield, hfieldsRest⟩ := List.forall_mem_cons.mp hfields
    obtain ⟨hnew, hseenRest⟩ := List.forall_mem_cons.mp hseen
    cases homitted : field.omitted (field.get s) with
    | true =>
      -- a field that is left out has no entry
      have hentry := Field.written?_of_omitted homitted
      rw [List.filterMap_cons_none (f := fun field : Field σ => field.written? s) hentry] at hnodes
      obtain ⟨seen, hyields, hkept, hadded⟩ :=
        ih sofar hfindRest hnamesRest hfieldsRest hnodes hseenRest
      rw [List.foldl_cons, Field.restore_of_omitted homitted]
      refine ⟨seen, hyields, hkept, List.forall_mem_cons.mpr ⟨fun hwritten => ?_, hadded⟩⟩
      rw [homitted] at hwritten
      cases hwritten
    | false =>
      have hentry := Field.written?_of_not_omitted homitted
      rw [List.filterMap_cons_some (f := fun field : Field σ => field.written? s) hentry] at hnodes
      obtain ⟨keyNode, node, more, hkeyNode, hnode, hmore, rfl⟩ :=
        Yaml.exists_of_nodesOfEntries?_cons hnodes
      -- its entry comes first, under a name that no later field has
      have hseenMore : ∀ later ∈ rest, later.name ∉ field.name :: sofar.seen := by
        intro later hlater hmem
        rcases List.mem_cons.mp hmem with heq | hmem
        · exact hname later hlater heq.symm
        · exact hseenRest later hlater hmem
      obtain ⟨seen, hyields, hkept, hadded⟩ :=
        ih ⟨field.put (field.get s) sofar.record, field.name :: sofar.seen⟩ hfindRest hnamesRest
          hfieldsRest hmore hseenMore
      rw [List.foldl_cons, Field.restore_of_not_omitted homitted]
      refine ⟨seen, ?_, fun name hmem => hkept name (List.mem_cons_of_mem _ hmem),
        List.forall_mem_cons.mpr ⟨fun _ => hkept _ List.mem_cons_self, hadded⟩⟩
      refine (Yaml.Reading.yields_text hkeyNode .fieldName _ path).bind ?_
      rw [hfind]
      dsimp only
      rw [if_neg (by simp [hnew])]
      exact ((hfield homitted).yields node hnode _).bind hyields

/-- Every field that a document has to have is there. -/
theorem missing?_eq_none {r : Record σ} (hr : r.Lawful) {s : σ} {seen : List String}
    (h : ∀ field ∈ r.fields, field.omitted (field.get s) = false → field.name ∈ seen) :
    r.missing? seen = none := by
  unfold missing?
  rw [Option.map_eq_none_iff, List.find?_eq_none]
  intro field hfield hmissing
  obtain ⟨hrequired, hunseen⟩ := Bool.and_eq_true_iff.mp hmissing
  have hseen := h field hfield (hr.written field hfield hrequired _)
  simp [hseen] at hunseen

/-- The names of the written fields are keys that differ. -/
theorem distinctKeys_written {fields : List (Field σ)}
    (h : fields.Pairwise fun field later => field.name ≠ later.name) (s : σ) :
    Value.DistinctKeys (fields.filterMap (·.written? s)) := by
  refine List.pairwise_filterMap.mpr (h.imp fun {field later} hne entry hentry other hother => ?_)
  rw [field.eq_of_written? hentry, later.eq_of_written? hother]
  exact beq_eq_false_iff_ne.mpr hne

/-- A record is restored when its fields are. -/
theorem restores {r : Record σ} (hr : r.Lawful) {s : σ}
    (hrestore : r.fields.foldl (Field.restore s) r.blank = s)
    (hfields : ∀ field ∈ r.fields, field.Restores depth s) : r.codec.Restores (depth + 1) s where
  readable := by
    have hentries : ∀ entry ∈ r.fields.filterMap (·.written? s),
        entry.1.Readable depth ∧ entry.2.Readable depth := by
      intro entry hentry
      obtain ⟨field, hfield, hwritten⟩ := List.mem_filterMap.mp hentry
      rw [field.eq_of_written? hwritten]
      exact ⟨.text field.name, (hfields field hfield (field.not_omitted_of_written? hwritten)).readable⟩
    exact .table (distinctKeys_written (name_ne_of_distinct hr.distinct) s)
      (fun entry hentry => (hentries entry hentry).1) fun entry hentry => (hentries entry hentry).2
  untagged := Value.isUntagged_table _
  yields node hnode path := by
    have htable : Node.ofValue? none (.table (r.fields.filterMap (·.written? s))) = some node := hnode
    rw [Node.ofValue?_table] at htable
    split at htable
    · cases htable
    obtain ⟨nodes, hnodes, rfl⟩ := Option.map_eq_some_iff.mp htable
    obtain ⟨seen, hyields, -, hseen⟩ := yields_ofEntries ⟨r.blank, []⟩
      (find?_name hr.distinct) (name_ne_of_distinct hr.distinct) hfields hnodes path (by simp)
    -- restoring every field, from the blank record on, gives the record
    rw [hrestore] at hyields
    refine Yields.located ((Yaml.Reading.yields_resolve (by simp [Node.asWritten])).bind ?_) path
    refine hyields.bind ?_
    dsimp only
    rw [missing?_eq_none hr hseen]
    exact Yaml.Reading.yields_pure s

end Record

end Provision
