import Provision.Proofs.Settings.Schema

/-!
# Lone keys in settings

The only values in settings that are not made of texts, flags and numbers by their fields are the
options of folders, so settings have a lone key exactly when the options of one of their folders do
(`Settings.hasLoneKey_toValue`).
-/

namespace Provision

open Yaml (hasLoneKey anyLoneKey anyEntryLoneKey)

/-- The search through items is a search for one. -/
theorem Yaml.anyLoneKey_eq_any (items : List Value) :
    anyLoneKey items = items.any (hasLoneKey false) := by
  induction items with
  | nil => rfl
  | cons item rest ih =>
    unfold anyLoneKey
    rw [ih, List.any_cons]

/-- The search through entries looks at keys and values. -/
theorem Yaml.anyEntryLoneKey_eq_any (entries : List (Value × Value)) :
    anyEntryLoneKey entries =
      entries.any fun entry => hasLoneKey false entry.1 || hasLoneKey false entry.2 := by
  induction entries with
  | nil => rfl
  | cons entry rest ih =>
    unfold anyEntryLoneKey
    rw [ih, List.any_cons]

/-- A table whose keys are texts has only the lone keys of its values. -/
theorem Yaml.hasLoneKey_table {entries : List (Value × Value)}
    (h : ∀ entry ∈ entries, ∃ s, entry.1 = .text s) :
    hasLoneKey false (.table entries) = entries.any fun entry => hasLoneKey false entry.2 := by
  -- a text is no lone key, so the table itself has none
  have hstart : startsLone entries = false := by
    unfold startsLone
    split
    · next key value =>
      obtain ⟨s, rfl⟩ : ∃ s, key = .text s := h (key, value) List.mem_cons_self
      rfl
    · rfl
  rw [hasLoneKey, hstart, Bool.and_false, Bool.false_or, anyEntryLoneKey_eq_any]
  rw [Bool.eq_iff_iff, List.any_eq_true, List.any_eq_true]
  refine exists_congr fun entry => and_congr_right fun hentry => ?_
  obtain ⟨s, hs⟩ := h entry hentry
  rw [hs]
  rfl

namespace Codec

variable {α : Type}

/-- Whether nothing that a codec writes has a lone key. -/
def Flat (codec : Codec α) : Prop :=
  ∀ a, hasLoneKey false (codec.toValue a) = false

theorem flat_text : text.Flat := fun _ => rfl

theorem flat_scalar : scalar.Flat := fun _ => rfl

theorem flat_flag : flag.Flat := fun _ => rfl

theorem flat_port : port.Flat := fun _ => rfl

theorem flat_truth : truth.Flat := by
  intro b
  cases b <;> rfl

/-- What may be missing is written without a lone key if what is there is. -/
theorem Flat.optional {codec : Codec α} (h : codec.Flat) : codec.optional.Flat := by
  intro a
  cases a with
  | none => rfl
  | some a => exact h a

/-- A list has a lone key exactly if an item has one. -/
theorem hasLoneKey_list (codec : Codec α) (as : List α) : hasLoneKey false (codec.list.toValue as) =
    as.any fun a => hasLoneKey false (codec.toValue a) := by
  show anyLoneKey (as.map codec.toValue) = _
  rw [Yaml.anyLoneKey_eq_any, List.any_map]
  rfl

/-- A list is written without a lone key if its items are. -/
theorem Flat.list {codec : Codec α} (h : codec.Flat) : codec.list.Flat := by
  intro as
  rw [hasLoneKey_list]
  exact List.any_eq_false.mpr fun a _ => by rw [h a]; decide

theorem Flat.presentList {codec : Codec α} (h : codec.Flat) : codec.presentList.Flat := by
  intro as
  cases as with
  | none => rfl
  | some as => exact h.list as

/-- Options have a lone key exactly if the value of one has. -/
theorem hasLoneKey_options (opts : Options) : hasLoneKey false (options.toValue opts) =
    opts.any fun option => hasLoneKey false option.2 := by
  unfold options
  rw [Yaml.hasLoneKey_table, List.any_map]
  · rfl
  · intro entry hentry
    obtain ⟨option, -, rfl⟩ := List.mem_map.mp hentry
    exact ⟨option.1, rfl⟩

end Codec

/-- A record is written with a lone key when one of its fields is. -/
theorem Record.hasLoneKey_toValue {σ : Type} (r : Record σ) (s : σ) :
    hasLoneKey false (r.codec.toValue s) = r.fields.any fun field =>
      !field.omitted (field.get s) && hasLoneKey false (field.codec.toValue (field.get s)) := by
  have hkeys : ∀ entry ∈ r.fields.filterMap (·.written? s), ∃ name, entry.1 = .text name := by
    intro entry hentry
    obtain ⟨field, -, hwritten⟩ := List.mem_filterMap.mp hentry
    rw [field.eq_of_written? hwritten]
    exact ⟨field.name, rfl⟩
  show hasLoneKey false (.table (r.fields.filterMap (·.written? s))) = _
  rw [Yaml.hasLoneKey_table hkeys, List.any_filterMap]
  refine List.any_congr rfl fun field => ?_
  cases homitted : field.omitted (field.get s) with
  | true => rw [Field.written?_of_omitted homitted]; rfl
  | false => rw [Field.written?_of_not_omitted homitted]; rfl

/-- A record of flat fields is flat. -/
theorem Record.flat {σ : Type} {r : Record σ} (h : ∀ field ∈ r.fields, field.codec.Flat) :
    r.codec.Flat := by
  intro s
  rw [r.hasLoneKey_toValue]
  exact List.any_eq_false.mpr fun field hfield => by rw [h field hfield]; simp

open Codec

theorem Network.flat : schema.codec.Flat := by
  refine Record.flat ?_
  unfold schema
  simp only [List.forall_mem_cons]
  exact ⟨flat_text.optional, flat_text.optional, flat_text.optional, by simp⟩

theorem PortMapping.flat : schema.codec.Flat := by
  refine Record.flat ?_
  unfold schema
  simp only [List.forall_mem_cons]
  exact ⟨flat_port.optional, flat_port.optional, flat_port.optional, flat_port.optional,
    flat_text.optional, by simp⟩

theorem FileCopy.flat : schema.codec.Flat := by
  refine Record.flat ?_
  unfold schema
  simp only [List.forall_mem_cons]
  exact ⟨flat_text, flat_text, by simp⟩

theorem SiteParam.flat : schema.codec.Flat := by
  refine Record.flat ?_
  unfold schema
  simp only [List.forall_mem_cons]
  exact ⟨flat_text, flat_scalar, by simp⟩

theorem Site.flat : schema.codec.Flat := by
  refine Record.flat ?_
  unfold schema
  simp only [List.forall_mem_cons]
  exact ⟨flat_text, flat_text.optional, flat_text.optional, flat_scalar.optional,
    flat_scalar.optional, SiteParam.flat.list.optional, flat_truth, by simp⟩

/-- Whether a folder has options with a lone key. -/
def Folder.hasLoneKey (folder : Folder) : Bool :=
  folder.options.any fun option => Yaml.hasLoneKey false option.2

/-- Only the options of a folder can have a lone key. -/
theorem Folder.hasLoneKey_toValue (folder : Folder) :
    Yaml.hasLoneKey false (schema.codec.toValue folder) = folder.hasLoneKey := by
  have htext : ∀ a, Yaml.hasLoneKey false (text.toValue a) = false := flat_text
  have hopt : ∀ a, Yaml.hasLoneKey false (text.optional.toValue a) = false := flat_text.optional
  have hmount : ∀ a, Yaml.hasLoneKey false (text.list.optional.toValue a) = false :=
    flat_text.list.optional
  rw [schema.hasLoneKey_toValue]
  unfold schema hasLoneKey
  simp only [List.any_cons, List.any_nil, Field.needed, Field.optional, htext, hopt, hmount,
    hasLoneKey_options, Bool.and_false, Bool.or_false, Bool.false_or]
  cases folder.options <;> rfl

/-- Whether settings have a folder with a lone key in its options. -/
def Settings.hasLoneKey (s : Settings) : Bool :=
  s.folders.any Folder.hasLoneKey

/-- Settings are written with a lone key when one of their folders has one. -/
theorem Settings.hasLoneKey_toValue (s : Settings) :
    Yaml.hasLoneKey false (schema.toValue s) = s.hasLoneKey := by
  have htext : ∀ a, Yaml.hasLoneKey false (text.optional.toValue a) = false := flat_text.optional
  have hscalar : ∀ a, Yaml.hasLoneKey false (scalar.optional.toValue a) = false :=
    flat_scalar.optional
  have hflag : ∀ a, Yaml.hasLoneKey false (flag.optional.toValue a) = false := flat_flag.optional
  have hkeys : ∀ a, Yaml.hasLoneKey false (text.presentList.toValue a) = false :=
    flat_text.presentList
  have htexts : ∀ a, Yaml.hasLoneKey false (text.list.toValue a) = false := flat_text.list
  have hnetworks : ∀ a, Yaml.hasLoneKey false (Network.schema.codec.list.toValue a) = false :=
    Network.flat.list
  have hports : ∀ a, Yaml.hasLoneKey false (PortMapping.schema.codec.list.toValue a) = false :=
    PortMapping.flat.list
  have hcopies : ∀ a, Yaml.hasLoneKey false (FileCopy.schema.codec.list.toValue a) = false :=
    FileCopy.flat.list
  have hsites : ∀ a, Yaml.hasLoneKey false (Site.schema.codec.list.toValue a) = false :=
    Site.flat.list
  -- every other field is flat
  have hfolders : Yaml.hasLoneKey false (Folder.schema.codec.list.toValue s.folders) =
      s.hasLoneKey := by
    rw [hasLoneKey_list]
    exact List.any_congr rfl Folder.hasLoneKey_toValue
  show Yaml.hasLoneKey false (schema.codec.toValue s) = _
  rw [schema.hasLoneKey_toValue]
  unfold schema
  simp only [List.any_cons, List.any_nil, Field.optional, Field.present, Field.list, htext, hscalar,
    hflag, hkeys, htexts, hnetworks, hports, hcopies, hsites, hfolders, Bool.and_false,
    Bool.or_false, Bool.false_or]
  unfold hasLoneKey
  cases s.folders <;> rfl

end Provision
