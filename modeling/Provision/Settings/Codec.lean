import Provision.Json.Reading
import Provision.Yaml.Reading

/-!
# Codecs of settings

A codec says how one kind of datum is read from either format of documents and what value it is
written as. Records are read field by field, in whatever order a document has them; what a document
leaves out keeps its blank value. Keys that no field has are passed over.
-/

namespace Provision

/-- How one kind of datum is read and written. -/
structure Codec (α : Type) where
  ofNode : Yaml.Place → Yaml.Node → Yaml.Reading α
  ofSource : (depth : Nat) → Json.Source → Json.Reading α
  toValue : α → Value

namespace Codec

/-- Texts; a scalar of any type is one in YAML. -/
def text : Codec String where
  ofNode place := Yaml.Reading.text .text place.path
  ofSource _ := Json.Reading.text
  toValue := .text

def flag : Codec Bool where
  ofNode place := Yaml.Reading.flag place.path
  ofSource _ := Json.Reading.flag
  toValue := .bool

def port : Codec UInt16 where
  ofNode place := Yaml.Reading.port place.path
  ofSource _ := Json.Reading.port
  toValue n := .int n.toNat

/-- Texts that may be given as bare numbers and flags. -/
def scalar : Codec String where
  ofNode := Yaml.Reading.scalarText
  ofSource := Json.Reading.scalarText
  toValue := .text

/-- Whether a value counts as true, of a field that is there. -/
def truth : Codec (Option Bool) where
  ofNode place node := some <$> Yaml.Reading.truth place node
  ofSource depth source := some <$> Json.Reading.truth depth source
  toValue b := (b.map .bool).getD .null

def options : Codec Options where
  ofNode := Yaml.Reading.options
  ofSource := Json.Reading.options
  toValue options := .table (options.map fun (name, value) => (.text name, value))

/-- A datum or null. -/
def optional {α : Type} (codec : Codec α) : Codec (Option α) where
  ofNode place := Yaml.Reading.optional (codec.ofNode place)
  ofSource depth := Json.Reading.optional (codec.ofSource depth)
  toValue a := (a.map codec.toValue).getD .null

def list {α : Type} (codec : Codec α) : Codec (List α) where
  ofNode := Yaml.Reading.list codec.ofNode
  ofSource := Json.Reading.list codec.ofSource
  toValue as := .list (as.map codec.toValue)

/-- A list of a field that is there; null stands for the empty list. -/
def presentList {α : Type} (codec : Codec α) : Codec (Option (List α)) where
  ofNode place node := (fun as => some (as.getD [])) <$> (list codec).optional.ofNode place node
  ofSource depth source :=
    (fun as => some (as.getD [])) <$> (list codec).optional.ofSource depth source
  toValue as := (as.map (list codec).toValue).getD .null

end Codec

/-- A field of a record `σ`. -/
structure Field (σ : Type) where
  name : String
  /-- Another name that documents may use. -/
  otherName : Option String := none
  /-- Whether a document has to have the field. -/
  required : Bool
  {α : Type}
  codec : Codec α
  get : σ → α
  put : α → σ → σ
  /-- Whether the field is left out in writing. -/
  omitted : α → Bool

namespace Field

variable {σ α : Type}

/-- A field that every document has. -/
def needed (name : String) (codec : Codec α) (get : σ → α) (put : α → σ → σ) : Field σ where
  name
  required := true
  codec
  get
  put
  omitted _ := false

/-- A field that documents may leave out or set to null. -/
def optional (name : String) (codec : Codec α) (get : σ → Option α) (put : Option α → σ → σ) :
    Field σ where
  name
  required := false
  codec := codec.optional
  get
  put
  omitted := Option.isNone

/-- A field with a codec of its own for when it is there. -/
def present (name : String) (codec : Codec (Option α)) (get : σ → Option α)
    (put : Option α → σ → σ) : Field σ where
  name
  required := false
  codec
  get
  put
  omitted := Option.isNone

/-- A list that is empty when it is left out. -/
def list (name : String) (codec : Codec α) (get : σ → List α) (put : List α → σ → σ) :
    Field σ where
  name
  required := false
  codec := codec.list
  get
  put
  omitted := List.isEmpty

/-- Whether the field goes by a name. -/
def goesBy (field : Field σ) (name : String) : Bool :=
  field.name == name || field.otherName == some name

/-- The entry the field is written as. -/
def written? (field : Field σ) (record : σ) : Option (Value × Value) :=
  let a := field.get record
  if field.omitted a then none else some (.text field.name, field.codec.toValue a)

end Field

/-- A kind of record. -/
structure Record (σ : Type) where
  /-- The name by which complaints know it. -/
  name : String
  blank : σ
  fields : List (Field σ)

namespace Record

variable {σ : Type}

/-- A record being read: what it is so far, and the names of the fields it has had. -/
structure Progress (σ : Type) where
  record : σ
  seen : List String

/-- The first field that a document has to have and did not. -/
def missing? (r : Record σ) (seen : List String) : Option String :=
  (r.fields.find? fun field => field.required && !seen.contains field.name).map Field.name

/-- Reads the entries of a mapping. -/
def ofEntries (r : Record σ) (depth : Nat) (path : Yaml.Path) :
    List (Yaml.Node × Yaml.Node) → Progress σ → Yaml.Reading (Progress σ)
  | [], sofar => return sofar
  | (keyNode, node) :: rest, sofar => do
    let key ← Yaml.Reading.text .fieldName path keyNode
    match r.fields.find? (·.goesBy key) with
    | none =>
      Yaml.Reading.skip node
      r.ofEntries depth path rest sofar
    | some field =>
      if sofar.seen.contains field.name then Yaml.Reading.complain (.repeatedField field.name)
      let a ← field.codec.ofNode ⟨depth, path.under keyNode⟩ node
      r.ofEntries depth path rest ⟨field.put a sofar.record, field.name :: sofar.seen⟩

/-- Reads a record from a mapping. -/
def ofNode (r : Record σ) : Yaml.Place → Yaml.Node → Yaml.Reading σ := fun place =>
  Yaml.Reading.mapping (.record r.name) (fun depth entries => do
    let ⟨record, seen⟩ ← r.ofEntries depth place.path entries ⟨r.blank, []⟩
    match r.missing? seen with
    | some name => Yaml.Reading.complain (.missingField name)
    | none => return record) place

/-- Reads the entries of an object. -/
def ofObject (r : Record σ) (depth : Nat) :
    List (Except Json.Break String × Json.Source) → Progress σ → Json.Reading (Progress σ)
  | [], sofar => return sofar
  | (key, source) :: rest, sofar => do
    let key ← Json.Reading.spelled key
    match r.fields.find? (·.goesBy key) with
    | none =>
      Json.Reading.skip source
      r.ofObject depth rest sofar
    | some field =>
      if sofar.seen.contains field.name then Json.Reading.complain (.repeatedField field.name)
      let a ← field.codec.ofSource depth source
      r.ofObject depth rest ⟨field.put a sofar.record, field.name :: sofar.seen⟩

/-- Reads fields from items in the order of the fields. A list may end before fields that a
document may leave out, and has to end after the last field. -/
def ofItems (r : Record σ) (depth : Nat) : List (Field σ) → List Json.Source → (read : Nat) →
    σ → Json.Reading σ
  | [], [], _, record => return record
  | [], .cut cause _ false :: _, _, _ => Json.Reading.brokenOff cause
  | [], _ :: _, _, _ => Json.Reading.brokenOff .malformed
  | field :: fields, [], read, record =>
    if field.required then
      Json.Reading.complain (.shortRecord read r.name r.fields.length)
    else r.ofItems depth fields [] (read + 1) record
  | field :: fields, source :: rest, read, record => do
    let a ← field.codec.ofSource depth source
    r.ofItems depth fields rest (read + 1) (field.put a record)

/-- Reads a record from an object, or from a list of its fields. -/
def ofSource (r : Record σ) : (depth : Nat) → Json.Source → Json.Reading σ
  | 0, .table _ | 0, .list _ => Json.Reading.brokenOff .malformed
  | depth + 1, .table entries => do
    let ⟨record, seen⟩ ← r.ofObject depth entries ⟨r.blank, []⟩
    match r.missing? seen with
    | some name => Json.Reading.complain (.missingField name)
    | none => return record
  | depth + 1, .list items => r.ofItems depth r.fields items 0 r.blank
  | _, source => Json.Reading.mismatch (.record r.name) source

/-- The table a record is written as. -/
def toValue (r : Record σ) (record : σ) : Value :=
  .table (r.fields.filterMap (·.written? record))

/-- The codec of a kind of record. -/
def codec (r : Record σ) : Codec σ := ⟨r.ofNode, r.ofSource, r.toValue⟩

end Record

end Provision
