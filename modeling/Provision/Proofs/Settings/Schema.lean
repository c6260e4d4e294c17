import Provision.Proofs.Settings.Codec
import Provision.Settings.Schema

/-!
# Laws of settings documents

Every kind of record in a settings document is lawful, and putting the written fields of one into
its blank makes it up again. Hence settings are restored whenever the options of their folders are
readable (`Settings.restores`); in settings that were read they are (`Settings.gives`), and nothing
else about what was read matters.
-/

namespace Provision

/-! ## Fields that are written -/

namespace Field

variable {σ α : Type} {depth : ℕ} {name : String} {s : σ}

/-- A needed field is restored if its value is. -/
theorem restores_needed {codec : Codec α} {get : σ → α} {put : α → σ → σ}
    (h : codec.Restores depth (get s)) : (needed name codec get put).Restores depth s :=
  fun _ => h

/-- A field that is there holds a datum, which its codec restores. -/
theorem restores_of_isNone {codec : Codec (Option α)} {a : Option α}
    (h : ∀ b, a = some b → codec.Restores depth (some b)) (hwritten : a.isNone = false) :
    codec.Restores depth a := by
  cases a with
  | none => cases hwritten
  | some b => exact h b rfl

/-- A field that tells null from nothing is restored if what is present is. -/
theorem restores_present {codec : Codec (Option α)} {get : σ → Option α}
    {put : Option α → σ → σ} (h : ∀ a, get s = some a → codec.Restores depth (some a)) :
    (present name codec get put).Restores depth s :=
  restores_of_isNone h

/-- An optional field is restored if what is set is, unless it is written as null. -/
theorem restores_optional {codec : Codec α} {get : σ → Option α} {put : Option α → σ → σ}
    (h : ∀ a, get s = some a → codec.Restores depth a) (hnull : ∀ a, codec.toValue a ≠ .null) :
    (optional name codec get put).Restores depth s :=
  restores_of_isNone fun a ha => (h a ha).optional (hnull a)

/-- A list field is restored if its items are. -/
theorem restores_list {codec : Codec α} {get : σ → List α} {put : List α → σ → σ}
    (h : ∀ a ∈ get s, codec.Restores depth a) :
    (list name codec get put).Restores (depth + 1) s :=
  fun _ => Codec.restores_list h

end Field

namespace Codec

variable {depth : ℕ}

theorem toValue_text_ne_null (s : String) : text.toValue s ≠ .null := by
  intro h
  cases h

theorem toValue_scalar_ne_null (s : String) : scalar.toValue s ≠ .null := by
  intro h
  cases h

theorem toValue_flag_ne_null (b : Bool) : flag.toValue b ≠ .null := by
  intro h
  cases h

theorem toValue_port_ne_null (n : UInt16) : port.toValue n ≠ .null := by
  intro h
  cases h

theorem toValue_list_ne_null {α : Type} (codec : Codec α) (as : List α) :
    codec.list.toValue as ≠ .null := by
  intro h
  cases h

end Codec

open Codec Provision.Field

/-! ## Networks, ports and copies -/

/-- No two fields of a network go by one name. -/
theorem Network.lawful : schema.Lawful where
  distinct := by decide
  written := by simp [schema, Field.optional]

theorem Network.foldl_restore (network : Network) :
    schema.fields.foldl (Field.restore network) schema.blank = network := by
  iterate 3 refine foldl_restore_cons (put_of_isNone rfl) ?_
  rfl

theorem Network.restores (depth : ℕ) (network : Network) :
    schema.codec.Restores (depth + 1) network := by
  refine Record.restores lawful network.foldl_restore ?_
  unfold schema
  simp only [List.forall_mem_cons]
  exact ⟨restores_optional (fun a _ => restores_text a) toValue_text_ne_null,
    restores_optional (fun a _ => restores_text a) toValue_text_ne_null,
    restores_optional (fun a _ => restores_text a) toValue_text_ne_null, by simp⟩

theorem PortMapping.lawful : schema.Lawful where
  distinct := by decide
  written := by simp [schema, Field.optional]

theorem PortMapping.foldl_restore (mapping : PortMapping) :
    schema.fields.foldl (Field.restore mapping) schema.blank = mapping := by
  iterate 5 refine foldl_restore_cons (put_of_isNone rfl) ?_
  rfl

theorem PortMapping.restores (depth : ℕ) (mapping : PortMapping) :
    schema.codec.Restores (depth + 1) mapping := by
  refine Record.restores lawful mapping.foldl_restore ?_
  unfold schema
  simp only [List.forall_mem_cons]
  exact ⟨restores_optional (fun n _ => restores_port n) toValue_port_ne_null,
    restores_optional (fun n _ => restores_port n) toValue_port_ne_null,
    restores_optional (fun n _ => restores_port n) toValue_port_ne_null,
    restores_optional (fun n _ => restores_port n) toValue_port_ne_null,
    restores_optional (fun a _ => restores_text a) toValue_text_ne_null, by simp⟩

theorem FileCopy.lawful : schema.Lawful where
  distinct := by decide
  written := by simp [schema, Field.needed]

theorem FileCopy.restores (depth : ℕ) (copy : FileCopy) :
    schema.codec.Restores (depth + 1) copy := by
  refine Record.restores lawful rfl ?_
  unfold schema
  simp only [List.forall_mem_cons]
  exact ⟨restores_needed (restores_text _), restores_needed (restores_text _), by simp⟩

/-! ## Folders -/

theorem Folder.lawful : schema.Lawful where
  distinct := by decide
  written := by simp [schema, Field.needed, Field.optional]

/-- A folder is put together again from its fields. -/
theorem Folder.foldl_restore (folder : Folder) :
    schema.fields.foldl (Field.restore folder) schema.blank = folder := by
  iterate 2 refine foldl_restore_cons (fun _ h => nomatch h) ?_
  refine foldl_restore_cons (put_of_isNone rfl) ?_
  refine foldl_restore_cons (put_of_isEmpty rfl) ?_
  refine foldl_restore_cons (put_of_isNone rfl) ?_
  rfl

/-- A folder is restored when its options are readable. -/
theorem Folder.restores {depth : ℕ} {folder : Folder} (h : folder.options.Readable depth) :
    schema.codec.Restores (depth + 2) folder := by
  refine Record.restores lawful folder.foldl_restore ?_
  unfold schema
  simp only [List.forall_mem_cons]
  exact ⟨restores_needed (restores_text _), restores_needed (restores_text _),
    restores_optional (fun a _ => restores_text a) toValue_text_ne_null,
    fun _ => restores_options h,
    restores_optional (fun _ _ => restores_list fun a _ => restores_text a)
      (toValue_list_ne_null text), by simp⟩

/-- The options of a folder are all that a reading has to say about it. -/
theorem Folder.gives (depth : ℕ) :
    schema.codec.Gives (depth + 2) fun folder => folder.options.Readable depth := by
  refine Record.gives Options.readable_nil ?_
  unfold Record.Keeps schema
  simp only [List.forall_mem_cons]
  refine ⟨gives_of_forall fun _ _ h => h, gives_of_forall fun _ _ h => h,
    gives_of_forall fun _ _ h => h, ?_, gives_of_forall fun _ _ h => h, by simp⟩
  exact gives_options.imp fun options h _ _ => h

/-! ## Sites -/

theorem SiteParam.lawful : schema.Lawful where
  distinct := by decide
  written := by simp [schema, Field.needed]

theorem SiteParam.restores (depth : ℕ) (param : SiteParam) :
    schema.codec.Restores (depth + 1) param := by
  refine Record.restores lawful rfl ?_
  unfold schema
  simp only [List.forall_mem_cons]
  exact ⟨restores_needed (restores_text _), restores_needed (restores_scalar _), by simp⟩

/-- No two fields of a site go by one name. -/
theorem Site.lawful : schema.Lawful where
  distinct := by decide
  written := by simp [schema, Field.needed, Field.optional, Field.present]

/-- A site is put together again from its fields. -/
theorem Site.foldl_restore (site : Site) :
    schema.fields.foldl (Field.restore site) schema.blank = site := by
  refine foldl_restore_cons (fun _ h => nomatch h) ?_
  iterate 6 refine foldl_restore_cons (put_of_isNone rfl) ?_
  rfl

/-- Every site is restored with its parameters and its schedule. -/
theorem Site.restores (depth : ℕ) (site : Site) : schema.codec.Restores (depth + 3) site := by
  refine Record.restores lawful site.foldl_restore ?_
  unfold schema
  simp only [List.forall_mem_cons]
  exact ⟨restores_needed (restores_text _),
    restores_optional (fun a _ => restores_text a) toValue_text_ne_null,
    restores_optional (fun a _ => restores_text a) toValue_text_ne_null,
    restores_optional (fun a _ => restores_scalar a) toValue_scalar_ne_null,
    restores_of_isNone fun a _ => (restores_scalar a).optional (toValue_scalar_ne_null a),
    restores_optional (fun _ _ => restores_list fun param _ => SiteParam.restores depth param)
      (toValue_list_ne_null SiteParam.schema.codec),
    restores_present fun b _ => restores_truth b, by simp⟩

/-! ## Settings -/

namespace Settings

/-- No two fields of settings go by one name. -/
theorem lawful : schema.Lawful where
  distinct := by decide
  written := by simp [schema, Field.list, Field.optional, Field.present]

/-- The settings that were read from no file, with options that a document can yield. -/
structure Readable (depth : ℕ) (s : Settings) : Prop where
  sourcePath : s.sourcePath = none
  options : ∀ folder ∈ s.folders, folder.options.Readable depth

/-- Settings without a source are put together again from their fields. -/
theorem foldl_restore {s : Settings} (h : s.sourcePath = none) :
    schema.fields.foldl (Field.restore s) schema.blank = s := by
  obtain ⟨⟩ := s
  cases h
  unfold schema blank
  -- each step is computed before the next, lest every field be read through all those before it
  repeat
    refine foldl_restore_cons
      (by first | exact put_of_isNone rfl | exact put_of_isEmpty rfl) ?_
    dsimp only [Field.optional, Field.list, Field.present]
  rfl

/-- Readable settings are restored from what they are written as. -/
theorem restores {depth : ℕ} {s : Settings} (h : s.Readable (depth + 1)) :
    schema.codec.Restores (depth + 5) s := by
  refine Record.restores lawful (foldl_restore h.sourcePath) ?_
  have htext : ∀ a, text.Restores (depth + 4) a := restores_text
  have hscalar : ∀ a, scalar.Restores (depth + 4) a := restores_scalar
  have hflag : ∀ b, flag.Restores (depth + 4) b := restores_flag
  unfold schema
  simp only [List.forall_mem_cons]
  exact ⟨restores_optional (fun a _ => htext a) toValue_text_ne_null,
    restores_optional (fun a _ => htext a) toValue_text_ne_null,
    restores_optional (fun a _ => htext a) toValue_text_ne_null,
    restores_optional (fun a _ => htext a) toValue_text_ne_null,
    restores_optional (fun a _ => htext a) toValue_text_ne_null,
    Field.restores_list fun network _ => Network.restores (depth + 2) network,
    restores_optional (fun a _ => hscalar a) toValue_scalar_ne_null,
    restores_optional (fun a _ => hscalar a) toValue_scalar_ne_null,
    restores_optional (fun a _ => hscalar a) toValue_scalar_ne_null,
    restores_optional (fun b _ => hflag b) toValue_flag_ne_null,
    Field.restores_list fun mapping _ => PortMapping.restores (depth + 2) mapping,
    restores_optional (fun b _ => hflag b) toValue_flag_ne_null,
    restores_optional (fun a _ => htext a) toValue_text_ne_null,
    restores_present fun _ _ => restores_presentList fun a _ => restores_text a,
    Field.restores_list fun copy _ => FileCopy.restores (depth + 2) copy,
    Field.restores_list fun folder hfolder => Folder.restores (h.options folder hfolder),
    Field.restores_list fun site _ => Site.restores depth site,
    restores_optional (fun a _ => htext a) toValue_text_ne_null,
    Field.restores_list fun a _ => restores_text a, by simp⟩

/-- Settings that were read are readable. -/
theorem gives (depth : ℕ) : schema.codec.Gives (depth + 4) (Readable depth) := by
  refine Record.gives ⟨rfl, by simp [schema, blank]⟩ ?_
  unfold Record.Keeps schema
  simp only [List.forall_mem_cons]
  iterate 15 refine ⟨gives_of_forall fun _ _ h => ⟨h.sourcePath, h.options⟩, ?_⟩
  refine ⟨(Folder.gives depth).list.imp fun folders hfolders _ h => ⟨h.sourcePath, hfolders⟩, ?_⟩
  iterate 3 refine ⟨gives_of_forall fun _ _ h => ⟨h.sourcePath, h.options⟩, ?_⟩
  simp

end Settings

end Provision
