import Mathlib.Data.List.Pairwise
import Provision.Proofs.Settings.Effect
import Provision.Proofs.Settings.Layout
import Provision.Proofs.Settings.Schema

/-!
# Laws of the codecs of settings

The codecs of a settings document are put together from a few single ones in a few ways. What goes
through each of these ways, and through records from the codecs of their fields, holds of the codec
of whole documents (`Settings.obeys`).
-/

namespace Provision

namespace Record

variable {σ : Type} {r : Record σ}

/-- Whether the fields of a record can be set in any order. -/
def Commutes (r : Record σ) : Prop :=
  r.fields.Pairwise Field.Commutes

/-- Fields with different names can be set in either order. -/
theorem Commutes.of_ne (h : r.Commutes) : ∀ field ∈ r.fields, ∀ other ∈ r.fields,
    field.name ≠ other.name → field.Commutes other := by
  have hsymm : Std.Symm (@Field.Commutes σ) := ⟨fun _ _ h a b record => (h b a record).symm⟩
  intro field hfield other hother hne
  exact h.forall hfield hother fun heq => hne (congrArg Field.name heq)

end Record

/-- A law of codecs, each with the layout of what it reads, that goes through every way in which the
codecs of settings are put together. -/
structure Codec.Law (P : ∀ α : Type, Codec α → Layout → Prop) : Prop where
  text : P _ .text .leaf
  scalar : P _ .scalar .leaf
  flag : P _ .flag .leaf
  port : P _ .port .leaf
  truth : P _ .truth .leaf
  options : P _ .options .leaf
  optional {α : Type} {codec : Codec α} {layout : Layout} (h : P _ codec layout) :
    P _ codec.optional layout
  list {α : Type} {codec : Codec α} {layout : Layout} (h : P _ codec layout) :
    P _ codec.list (.list layout)
  /-- A list of parts without records has none either. -/
  leaves {α : Type} {codec : Codec α} (h : P _ codec .leaf) : P _ codec.list .leaf
  presentList {α : Type} {codec : Codec α} (h : P _ codec .leaf) : P _ codec.presentList .leaf
  record {σ : Type} {r : Record σ} {part : String → Layout} (hr : r.Lawful) (hcommutes : r.Commutes)
      (hfields : ∀ field ∈ r.fields, P _ field.codec (part field.name)) :
    P _ r.codec (.record r.fieldName? part)

variable {P : ∀ α : Type, Codec α → Layout → Prop}

/-- The fields of a network can be set in any order. -/
theorem Network.commutes : schema.Commutes := by
  unfold Record.Commutes schema
  simp [Field.Commutes, Field.optional]

/-- Every field of a network is optional and holds a text. -/
theorem Network.fields_obey (law : Codec.Law P) :
    ∀ field ∈ schema.fields, P _ field.codec .leaf := by
  unfold schema
  simp only [List.forall_mem_cons]
  exact ⟨law.optional law.text, law.optional law.text, law.optional law.text, by simp⟩

theorem Network.obeys (law : Codec.Law P) : P _ schema.codec (schema.layout []) :=
  law.record lawful commutes (fields_obey law)

/-- The fields of a mapping can be set in any order. -/
theorem PortMapping.commutes : schema.Commutes := by
  unfold Record.Commutes schema
  simp [Field.Commutes, Field.optional]

/-- Every field of a mapping is optional and holds a port or a text. -/
theorem PortMapping.fields_obey (law : Codec.Law P) :
    ∀ field ∈ schema.fields, P _ field.codec .leaf := by
  unfold schema
  simp only [List.forall_mem_cons]
  exact ⟨law.optional law.port, law.optional law.port, law.optional law.port,
    law.optional law.port, law.optional law.text, by simp⟩

theorem PortMapping.obeys (law : Codec.Law P) : P _ schema.codec (schema.layout []) :=
  law.record lawful commutes (fields_obey law)

/-- The fields of a copy can be set in either order. -/
theorem FileCopy.commutes : schema.Commutes := by
  unfold Record.Commutes schema
  simp [Field.Commutes, Field.needed]

theorem FileCopy.fields_obey (law : Codec.Law P) :
    ∀ field ∈ schema.fields, P _ field.codec .leaf := by
  unfold schema
  simp only [List.forall_mem_cons]
  exact ⟨law.text, law.text, by simp⟩

theorem FileCopy.obeys (law : Codec.Law P) : P _ schema.codec (schema.layout []) :=
  law.record lawful commutes (fields_obey law)

theorem Folder.commutes : schema.Commutes := by
  unfold Record.Commutes schema
  simp [Field.Commutes, Field.needed, Field.optional]

/-- The fields of a folder hold texts, options and a list of texts, and no record. -/
theorem Folder.fields_obey (law : Codec.Law P) :
    ∀ field ∈ schema.fields, P _ field.codec .leaf := by
  unfold schema
  simp only [List.forall_mem_cons]
  exact ⟨law.text, law.text, law.optional law.text, law.options,
    law.optional (law.leaves law.text), by simp⟩

theorem Folder.obeys (law : Codec.Law P) : P _ schema.codec (schema.layout []) :=
  law.record lawful commutes (fields_obey law)

theorem SiteParam.commutes : schema.Commutes := by
  unfold Record.Commutes schema
  simp [Field.Commutes, Field.needed]

theorem SiteParam.fields_obey (law : Codec.Law P) :
    ∀ field ∈ schema.fields, P _ field.codec .leaf := by
  unfold schema
  simp only [List.forall_mem_cons]
  exact ⟨law.text, law.scalar, by simp⟩

/-- The codec of parameters obeys every law. -/
theorem SiteParam.obeys (law : Codec.Law P) : P _ schema.codec (schema.layout []) :=
  law.record lawful commutes (fields_obey law)

/-- The fields of a site can be set in any order, that with two names included. -/
theorem Site.commutes : schema.Commutes := by
  unfold Record.Commutes schema
  simp [Field.Commutes, Field.needed, Field.optional, Field.present]

/-- The parameters are the only records within a site. -/
def Site.part (name : String) : Layout :=
  ([("params", .list (SiteParam.schema.layout []))].lookup name).getD .leaf

/-- The fields of a site obey every law, its parameters as a list of records. -/
theorem Site.fields_obey (law : Codec.Law P) :
    ∀ field ∈ schema.fields, P _ field.codec (part field.name) := by
  unfold schema
  simp only [List.forall_mem_cons]
  exact ⟨law.text, law.optional law.text, law.optional law.text, law.optional law.scalar,
    law.optional law.scalar, law.optional (law.list (SiteParam.obeys law)), law.truth, by simp⟩

theorem Site.obeys (law : Codec.Law P) :
    P _ schema.codec (schema.layout [("params", .list (SiteParam.schema.layout []))]) :=
  law.record lawful commutes (fields_obey law)

namespace Settings

/-- The fields of settings can be set in any order. -/
theorem commutes : schema.Commutes := by
  unfold Record.Commutes schema
  simp only [List.pairwise_cons, List.forall_mem_cons]
  simp [Field.Commutes, Field.optional, Field.list, Field.present]

/-- The records within settings, by the fields that hold them. -/
def part (name : String) : Layout :=
  ([("networks", .list (Network.schema.layout [])), ("ports", .list (PortMapping.schema.layout [])),
    ("copy", .list (FileCopy.schema.layout [])), ("folders", .list (Folder.schema.layout [])),
    ("sites", .list (Site.schema.layout [("params", .list (SiteParam.schema.layout []))]))].lookup
      name).getD .leaf

/-- The fields of settings obey every law, each with the records it holds. -/
theorem fields_obey (law : Codec.Law P) :
    ∀ field ∈ schema.fields, P _ field.codec (part field.name) := by
  unfold schema
  simp only [List.forall_mem_cons]
  exact ⟨law.optional law.text, law.optional law.text, law.optional law.text,
    law.optional law.text, law.optional law.text, law.list (Network.obeys law),
    law.optional law.scalar, law.optional law.scalar, law.optional law.scalar,
    law.optional law.flag, law.list (PortMapping.obeys law), law.optional law.flag,
    law.optional law.text, law.presentList law.text, law.list (FileCopy.obeys law),
    law.list (Folder.obeys law), law.list (Site.obeys law), law.optional law.text,
    law.leaves law.text, by simp⟩

/-- The codec of settings documents obeys every law that its parts obey. -/
theorem obeys (law : Codec.Law P) : P _ schema.codec layout :=
  law.record lawful commutes (fields_obey law)

end Settings

end Provision
