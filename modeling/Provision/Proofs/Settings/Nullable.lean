import Provision.Proofs.Settings.NullNode
import Provision.Proofs.Settings.NullSource

/-!
# Keys that may be null

Null is read as what a blank record has in every optional field but two, whose codecs make it a list
without keys, or a schedule that is not wanted. So a record stays the same when its mapping gains
the key of one of the others with null in it (`Record.Nullable.yields`, `Record.Nullable.ofSource`).
-/

namespace Provision

open Json (Source)
open Yaml (Node)
open Yaml.Reading (Yields)

/-! ## How null is read -/

/-- A null is nothing where something may be missing. -/
theorem Yaml.Node.IsNull.yields_optional {α : Type} {node : Node} (h : node.IsNull)
    (read : Node → Yaml.Reading α) : Yields (Yaml.Reading.optional read node) none := by
  cases h with
  | mk anchor htext =>
    refine (Yaml.Reading.yields_resolve (by simp)).bind ?_
    dsimp only
    rw [if_neg (by simp), if_pos (by simpa using htext)]
    exact Yaml.Reading.yields_pure none

namespace Codec

variable {α : Type}

/-- Whether null is read as a datum, in both formats. -/
structure ReadsNull (codec : Codec α) (a : α) : Prop where
  ofNode : ∀ node : Node, node.IsNull → ∀ place, Yields (codec.ofNode place node) a
  ofSource : ∀ depth, codec.ofSource depth .null = .ok a

/-- Where something may be missing a null is nothing. -/
theorem readsNull_optional (codec : Codec α) : codec.optional.ReadsNull none where
  ofNode _ hnode _ := hnode.yields_optional _
  ofSource _ := rfl

/-- A null is a present list without items. -/
theorem readsNull_presentList (codec : Codec α) : codec.presentList.ReadsNull (some []) where
  ofNode _ hnode _ := (hnode.yields_optional _).map _
  ofSource _ := rfl

/-- A null is a truth that is present and false. -/
theorem readsNull_truth : truth.ReadsNull (some false) where
  ofNode _ hnode _ := ((hnode.yields_optional _).bind (Yaml.Reading.yields_pure false)).map some
  ofSource _ := rfl

end Codec

/-! ## Records with keys that may be null -/

namespace Record

variable {σ : Type} {r : Record σ}

/-- A kind of record in which null under some keys means what it means to lack them. -/
structure Nullable (r : Record σ) (keys : List String) : Prop where
  lawful : r.Lawful
  commutes : r.Commutes
  decided : ∀ field ∈ r.fields, field.codec.Decided
  /-- Null is read as what the blank record has. -/
  blank : ∀ field ∈ r.fields, field.name ∈ keys →
    ∃ a, field.codec.ReadsNull a ∧ field.put a r.blank = r.blank
  /-- Each key stands for a field whose name is among the keys. -/
  known : ∀ key ∈ keys, (r.fieldName? key).any keys.contains = true

namespace Nullable

variable {keys : List String} {key : String}

/-- A key that is nullable is that of a field, and its null leaves the record blank. -/
theorem exists_field (h : r.Nullable keys) (hkey : key ∈ keys) :
    ∃ field a, r.fields.find? (·.goesBy key) = some field ∧ field.codec.ReadsNull a ∧
      field.put a r.blank = r.blank := by
  have hknown := h.known key hkey
  unfold fieldName? at hknown
  cases hfind : r.fields.find? (·.goesBy key) with
  | none =>
    rw [hfind] at hknown
    cases hknown
  | some field =>
    rw [hfind, Option.map_some, Option.any_some, List.contains_iff_mem] at hknown
    obtain ⟨a, hread, hblank⟩ := h.blank field (List.mem_of_find?_eq_some hfind) hknown
    exact ⟨field, a, rfl, hread, hblank⟩

/-- A record is the same with one of the keys in its mapping. -/
theorem yields (h : r.Nullable keys) (hkey : key ∈ keys) {node node' : Node}
    (hgains : node.GainsNull r.fieldName? key node') (hnode : node.SelfContained)
    {place : Yaml.Place} {s : σ} (hs : Yields (r.ofNode place node) s) :
    Yields (r.ofNode place node') s := by
  obtain ⟨field, a, hfind, hread, hblank⟩ := h.exists_field hkey
  obtain ⟨hput, hsame⟩ :=
    yields_of_gainsNull h.commutes h.decided hfind hread.ofNode hgains hnode hs
  rwa [hsame a hblank] at hput

/-- A record is the same with one of the keys in its object. -/
theorem ofSource (h : r.Nullable keys) (hkey : key ∈ keys) {source source' : Source}
    (hgains : source.GainsNull r.fieldName? key source') {depth : ℕ} {s : σ}
    (hs : r.ofSource depth source = .ok s) : r.ofSource depth source' = .ok s := by
  obtain ⟨field, a, hfind, hread, hblank⟩ := h.exists_field hkey
  obtain ⟨hput, hsame⟩ := ofSource_of_gainsNull h.commutes hfind hread.ofSource hgains hs
  rwa [hsame a hblank] at hput

end Nullable

end Record

/-! ## The records of settings -/

/-- An optional field has nothing in the blank record, which is what null is read as. -/
theorem Field.exists_blank_optional {σ α : Type} {name : String} {codec : Codec α}
    {get : σ → Option α} {put : Option α → σ → σ} {blank : σ} (h : put none blank = blank) :
    ∃ a, (Field.optional name codec get put).codec.ReadsNull a ∧
      (Field.optional name codec get put).put a blank = blank :=
  ⟨none, Codec.readsNull_optional codec, h⟩

open Provision.Field (exists_blank_optional)

/-- The keys of the optional fields of a network. -/
def Network.optionalKeys : List String := ["type", "ip", "bridge"]

/-- Every optional key of a network may be null. -/
theorem Network.nullable : schema.Nullable optionalKeys where
  lawful := lawful
  commutes := commutes
  decided field hfield := (fields_obey Codec.law_unordered field hfield).decided
  blank := by
    unfold schema optionalKeys
    simp only [List.forall_mem_cons]
    exact ⟨fun _ => exists_blank_optional rfl, fun _ => exists_blank_optional rfl,
      fun _ => exists_blank_optional rfl, by simp⟩
  known := by decide

/-- The keys of the optional fields of a port mapping. -/
def PortMapping.optionalKeys : List String := ["guest", "host", "to", "send", "protocol"]

/-- Every optional key of a mapping may be null. -/
theorem PortMapping.nullable : schema.Nullable optionalKeys where
  lawful := lawful
  commutes := commutes
  decided field hfield := (fields_obey Codec.law_unordered field hfield).decided
  blank := by
    unfold schema optionalKeys
    simp only [List.forall_mem_cons]
    exact ⟨fun _ => exists_blank_optional rfl, fun _ => exists_blank_optional rfl,
      fun _ => exists_blank_optional rfl, fun _ => exists_blank_optional rfl,
      fun _ => exists_blank_optional rfl, by simp⟩
  known := by decide

/-- The keys of the optional fields of a folder. -/
def Folder.optionalKeys : List String := ["type", "mount_options"]

/-- Every optional key of a folder may be null. -/
theorem Folder.nullable : schema.Nullable optionalKeys where
  lawful := lawful
  commutes := commutes
  decided field hfield := (fields_obey Codec.law_unordered field hfield).decided
  blank := by
    unfold schema optionalKeys
    simp only [List.forall_mem_cons]
    exact ⟨by simp [Field.needed], by simp [Field.needed], fun _ => exists_blank_optional rfl,
      by simp, fun _ => exists_blank_optional rfl, by simp⟩
  known := by decide

/-- The keys of the optional fields of a site, without that of its schedule. -/
def Site.optionalKeys : List String := ["to", "type", "port", "ssl", "ssl_port", "params"]

/-- Every optional key of a site may be null, the older one for TLS included. -/
theorem Site.nullable : schema.Nullable optionalKeys where
  lawful := lawful
  commutes := commutes
  decided field hfield := (fields_obey Codec.law_unordered field hfield).decided
  blank := by
    unfold schema optionalKeys
    simp only [List.forall_mem_cons]
    exact ⟨by simp [Field.needed], fun _ => exists_blank_optional rfl,
      fun _ => exists_blank_optional rfl, fun _ => exists_blank_optional rfl,
      fun _ => ⟨none, Codec.readsNull_optional _, rfl⟩, fun _ => exists_blank_optional rfl,
      by simp [Field.present], by simp⟩
  known := by decide

/-- The keys of the optional fields of settings, without that of their keys. -/
def Settings.optionalKeys : List String :=
  ["provider", "name", "box", "version", "ip", "memory", "cpus", "natdnshostresolver", "gui",
    "default_ports", "authorize", "service"]

/-- Every optional key of settings may be null. -/
theorem Settings.nullable : schema.Nullable optionalKeys where
  lawful := lawful
  commutes := commutes
  decided field hfield := (fields_obey Codec.law_unordered field hfield).decided
  blank := by
    unfold schema optionalKeys
    simp only [List.forall_mem_cons]
    exact ⟨fun _ => exists_blank_optional rfl, fun _ => exists_blank_optional rfl,
      fun _ => exists_blank_optional rfl, fun _ => exists_blank_optional rfl,
      fun _ => exists_blank_optional rfl, by simp [Field.list],
      fun _ => exists_blank_optional rfl, fun _ => exists_blank_optional rfl,
      fun _ => exists_blank_optional rfl, fun _ => exists_blank_optional rfl,
      by simp [Field.list], fun _ => exists_blank_optional rfl,
      fun _ => exists_blank_optional rfl, by simp [Field.present], by simp [Field.list],
      by simp [Field.list], by simp [Field.list], fun _ => exists_blank_optional rfl,
      by simp [Field.list], by simp⟩
  known := by decide

end Provision
