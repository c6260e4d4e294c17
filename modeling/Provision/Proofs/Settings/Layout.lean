import Provision.Settings.Schema

/-!
# Where the records of a document stand

A settings document is a record, and some of its fields hold lists of further records. A layout says
which parts of a document are read as records and which field of each a key stands for, so that
what is done to every record of a document can be said once, by recursion on the layout.
-/

namespace Provision

/-- Which parts of a document are records. -/
inductive Layout
  /-- Nothing in the part is a record. -/
  | leaf
  | list (item : Layout)
  /-- The field a key stands for, and the layout of every field. -/
  | record (field? : String → Option String) (part : String → Layout)

namespace Record

variable {σ : Type}

/-- The field that a key stands for. -/
def fieldName? (r : Record σ) (key : String) : Option String :=
  (r.fields.find? (·.goesBy key)).map Field.name

/-- The layout of a record in which only the given fields hold further records. -/
def layout (r : Record σ) (parts : List (String × Layout)) : Layout :=
  .record r.fieldName? fun field => (parts.lookup field).getD .leaf

end Record

/-- The layout of settings documents. -/
def Settings.layout : Layout :=
  Settings.schema.layout [
    ("networks", .list (Network.schema.layout [])),
    ("ports", .list (PortMapping.schema.layout [])),
    ("copy", .list (FileCopy.schema.layout [])),
    ("folders", .list (Folder.schema.layout [])),
    ("sites", .list (Site.schema.layout [("params", .list (SiteParam.schema.layout []))]))]

end Provision
