import Provision.Number.Format
import Provision.Text.Quoted
import Provision.Value

/-!
# Complaints about a document's data

A document that breaks no rule of its format can still say the wrong thing: a value of another
type, a field twice or not at all. A complaint names what was found and what was expected; its text
depends on the format of the document only in how values are named.
-/

namespace Provision

/-- The formats of settings documents. -/
inductive DocumentFormat
  | yaml
  | json
deriving DecidableEq, Repr

/-- What a document has in a place. -/
inductive Found
  | atom (a : Atom)
  | list
  | table
deriving DecidableEq

/-- What belongs in a place. -/
inductive Expected
  | text
  | flag
  | port
  | list
  | table
  | record (name : String)
  | fieldName
  | content
  | value
  | integer
  | float
  | null
deriving DecidableEq, Repr

/-- What is wrong with the data of a document. -/
inductive Complaint
  | wrongType (found : Found) (expected : Expected)
  | wrongValue (found : Found) (expected : Expected)
  | missingField (name : String)
  | repeatedField (name : String)
  /-- A record given as a list that ends before its required fields. -/
  | shortRecord (length : Nat) (name : String) (fields : Nat)
  /-- A list, a table or nothing where a single value belongs. -/
  | noScalar
  /-- A tagged node where a single value belongs. -/
  | taggedScalar
  | repeatedKey (key : Value)

/-- The words for an atom. -/
def Atom.words (format : DocumentFormat) : Atom → String
  | .null => match format with
    | .yaml => "unit value"
    | .json => "null"
  | .bool b => s!"boolean `{b}`"
  | .int n => s!"integer `{n}`"
  | .wideInt n => s!"integer `{n}` as " ++ (if 0 ≤ n then "u128" else "i128")
  | .float x =>
    let numbers := match format with
      | .yaml => NumberFormat.complaint
      | .json => NumberFormat.json
    s!"floating point `{x.text numbers}`"
  | .text s => "string " ++ Text.quoted s

/-- The words for what was found. -/
def Found.words (format : DocumentFormat) : Found → String
  | .atom a => a.words format
  | .list => "sequence"
  | .table => "map"

/-- The words for what was expected. -/
def Expected.words : Expected → String
  | .text => "a string"
  | .flag => "a boolean"
  | .port => "u16"
  | .list => "a sequence"
  | .table => "a map"
  | .record name => "struct " ++ name
  | .fieldName => "field identifier"
  | .content => "any value"
  | .value => "any YAML value"
  | .integer => "an integer"
  | .float => "a float"
  | .null => "null"

/-- The words for a key that a table has twice. -/
def Complaint.keyWords : Value → String
  | .null => "with null key"
  | .bool b => s!"with key `{b}`"
  | .int n => s!"with key {n}"
  | .float x => "with key " ++ x.text NumberFormat.document
  | .text s => "with key " ++ Text.quoted s
  | .list _ | .table _ | .tagged _ _ => "in YAML map"

/-- The text of a complaint. -/
def Complaint.words (format : DocumentFormat) : Complaint → String
  | .wrongType found expected =>
    s!"invalid type: {found.words format}, expected {expected.words}"
  | .wrongValue found expected =>
    s!"invalid value: {found.words format}, expected {expected.words}"
  | .missingField name => s!"missing field `{name}`"
  | .repeatedField name => s!"duplicate field `{name}`"
  | .shortRecord length name fields =>
    s!"invalid length {length}, expected struct {name} with {fields} elements"
  | .noScalar => "data did not match any variant of untagged enum Scalar"
  | .taggedScalar => "untagged and internally tagged enums do not support enum input"
  | .repeatedKey key => "duplicate entry " ++ keyWords key

end Provision
