import Provision.Settings.Basic
import Provision.Yaml.Document
import Provision.Yaml.Path
import Provision.Yaml.Plain

/-!
# Reading a document's nodes

A reading follows the nodes of a document in order and takes what it is asked for: texts, flags,
port numbers, lists, tables and free values. The first thing that is wrong ends it, be it a
complaint about a node or the cut where the document itself ends early. A complaint is located at
the innermost node that is read as a whole. Following an alias counts, and a document may not be
followed too often in proportion to its size.
-/

namespace Provision.Yaml

/-- Why a document was not read or written. -/
inductive Fault
  | malformed (cause : SyntaxFault)
  | unknownAnchor
  /-- Collections too deep within each other. -/
  | tooDeep
  /-- Aliases followed too often. -/
  | tooOften
  | severalDocuments
  | complaint (complaint : Complaint) (path : Option Path)
  /-- A table with a tagged key as its only one, which has no written form. -/
  | unwritable

/-- Where a reading is: the path, and how much deeper collections may nest. -/
structure Place where
  depth : Nat
  path : Path

/-- The root of a document. Collections nest up to 128 deep. -/
def Place.root : Place := ⟨128, .root⟩

/-- The path of an entry's value. -/
def Path.under (path : Path) : (key : Node) → Path
  | .scalar _ s => .field path s.text
  | _ => .unnamed path

/-- A reading of a document, counting the aliases it follows. -/
abbrev Reading := ReaderT Document (StateT Nat (Except Fault))

namespace Reading

variable {α : Type}

def complain (complaint : Complaint) : Reading α :=
  throw (.complaint complaint none)

/-- The reading with its complaints located at a path, unless they already are somewhere. -/
def located (path : Path) (reading : Reading α) : Reading α := fun document count =>
  match reading document count with
  | .error (.complaint complaint none) => .error (.complaint complaint (some path))
  | result => result

/-- Fails as the document does where it ends early. -/
def brokenOff : Reading α := do
  match (← read).brokenBy with
  | some (.malformed cause) => throw (.malformed cause)
  | _ => throw .unknownAnchor

/-- The node itself, or the one an alias stands for. -/
def resolve : Node → Reading Node
  | .alias target => do
    let document ← read
    let count ← get
    if document.size * 100 < count + 1 then throw .tooOften
    set (count + 1)
    match document.anchor? target with
    | some node => return node
    | none => brokenOff
  | node => return node

/-- Takes no notice of a node, but does not get past a cut. -/
def skip (node : Node) : Reading Unit :=
  if node.isCut then brokenOff else return ()

/-- Complains that a node is not what belongs there. -/
def mismatch (expected : Expected) : Node → Reading α
  | .scalar _ s =>
    match s.atom with
    | .ok atom => complain (.wrongType (.atom atom) expected)
    | .error complaint => complain complaint
  | .sequence _ _ _ => complain (.wrongType .list expected)
  | .mapping _ _ _ => complain (.wrongType .table expected)
  | .alias _ | .cut => brokenOff

/-- The reading of parts one level down, if collections may nest any deeper. -/
def deeper {β : Type} (inner : Option β) : Reading β :=
  match inner with
  | some inner => return inner
  | none => throw .tooDeep

/-! ## Single values -/

/-- Reads the text of any scalar. -/
def text (expected : Expected) (path : Path) (node : Node) : Reading String :=
  located path do
    match ← resolve node with
    | .scalar _ s => return s.text
    | node => mismatch expected node

/-- Whether a scalar may spell a value of a basic type: it is plain, or a literal block under that
type's tag. -/
def maySpell (s : Scalar) (tag : Tag) : Bool :=
  s.style = .plain || (s.style = .literal && s.tag = some tag)

/-- Reads a boolean. -/
def flag (path : Path) (node : Node) : Reading Bool :=
  located path do
    let node ← resolve node
    match node with
    | .scalar _ s =>
      match if maySpell s .boolean then bool? s.text else none with
      | some b => return b
      | none => mismatch .flag node
    | node => mismatch .flag node

/-- The unsigned integer a text spells, if it is not longer than 64 bits. -/
def unsigned64? (text : String) : Option Nat :=
  let n? := match text.toList with
    | '+' :: rest => natural? rest
    | rest => natural? rest
  n?.filter (· < Nat.pow 2 64)

/-- Reads a port number. -/
def port (path : Path) (node : Node) : Reading UInt16 :=
  located path do
    let node ← resolve node
    match node with
    | .scalar _ s =>
      match if maySpell s .integer then unsigned64? s.text else none with
      | some n =>
        if n < Nat.pow 2 16 then return n.toUInt16
        else complain (.wrongValue (.atom (.int n)) .port)
      | none => mismatch .port node
    | node => mismatch .port node

/-- Reads a node unless it is null or a plain scalar that is empty. -/
def optional (read : Node → Reading α) (node : Node) : Reading (Option α) := do
  let node ← resolve node
  match node with
  | .scalar _ s =>
    if s.style ≠ .plain then some <$> read node
    else match s.tag with
      | some .null =>
        if isNull s.text then return none
        else complain (tagComplaint s.text .null)
      | some _ => some <$> read node
      | none => if s.text = "" || isNull s.text then return none else some <$> read node
  | .cut => brokenOff
  | node => some <$> read node

/-! ## Lists -/

/-- Reads items in order. -/
def items (read : Path → Node → Reading α) (path : Path) : (index : Nat) → List Node →
    Reading (List α)
  | _, [] => return []
  | index, node :: rest => do
    let item ← read (.item path index) node
    return item :: (← items read path (index + 1) rest)

/-- Reads a list; a plain scalar that is empty is an empty list. -/
def list (read : Place → Node → Reading α) (place : Place) (node : Node) : Reading (List α) :=
  located place.path do
    let node ← resolve node
    match node with
    | .sequence _ _ nodes =>
      match place.depth with
      | 0 => throw .tooDeep
      | depth + 1 => items (fun path => read ⟨depth, path⟩) place.path 0 nodes
    | .scalar _ s =>
      if s.text = "" && s.style = .plain then return [] else mismatch .list node
    | node => mismatch .list node

/-- Reads a mapping with a function of its entries and the depth below it; a plain scalar that is
empty is an empty mapping. -/
def mapping (expected : Expected) (read : Nat → List (Node × Node) → Reading α) (place : Place)
    (node : Node) : Reading α :=
  located place.path do
    let node ← resolve node
    match node with
    | .mapping _ _ entries =>
      match place.depth with
      | 0 => throw .tooDeep
      | depth + 1 => read depth entries
    | .scalar _ s =>
      if s.text = "" && s.style = .plain then read place.depth [] else mismatch expected node
    | node => mismatch expected node

/-! ## Free values -/

/-- Reads the entries of a table; no key may repeat. -/
def tableEntries (readKey : Node → Reading Value) (readValue : Path → Node → Reading Value)
    (path : Path) : List (Node × Node) → (before : List (Value × Value)) →
    Reading (List (Value × Value))
  | [], before => return before.reverse
  | (keyNode, node) :: rest, before => do
    let key ← readKey keyNode
    if Value.hasKey before key then complain (.repeatedKey key)
    let value ← readValue (path.under keyNode) node
    tableEntries readKey readValue path rest ((key, value) :: before)

/-- Reads an untagged scalar as a value. -/
def scalarValue (s : Scalar) : Reading Value :=
  match s.atom with
  | .error complaint => complain complaint
  | .ok atom =>
    match Value.ofAtom? atom with
    | some value => return value
    | none => complain (.wrongType (.atom atom) .value)

/-- The value under a tag, if that is one of the document's own. -/
def tagged (tag : Option Tag) (value : Value) : Value :=
  match tag with
  | some (.own name) => .tagged name value
  | _ => value

/-- Reads a value, its parts by `inner`. -/
def valueBy (inner : Option (Path → Node → Reading Value)) (path : Path) (node : Node) :
    Reading Value :=
  located path do
    match ← resolve node with
    | .scalar _ s =>
      match s.tag with
      | some (.own name) => Value.tagged name <$> scalarValue { s with tag := none }
      | _ => scalarValue s
    | .sequence _ tag nodes =>
      let read ← deeper inner
      return tagged tag (.list (← items read path 0 nodes))
    | .mapping _ tag entries =>
      let read ← deeper inner
      return tagged tag (.table (← tableEntries (read path) read path entries []))
    | .alias _ | .cut => brokenOff

/-- Reads a value whose collections nest up to `depth` deep. -/
def value : (depth : Nat) → Path → Node → Reading Value
  | 0 => valueBy none
  | depth + 1 => valueBy (some (value depth))

/-- Reads whether a value counts as true: all but null and false do. -/
def truth (place : Place) (node : Node) : Reading Bool := do
  match ← optional (value place.depth place.path) node with
  | none | some .null | some (.bool false) => return false
  | some _ => return true

/-- Reads options by name. A repeated name keeps its first place and takes the last value. -/
def optionEntries (depth : Nat) (path : Path) : List (Node × Node) → Options → Reading Options
  | [], options => return options
  | (keyNode, node) :: rest, options => do
    let name ← text .text path keyNode
    let value ← value depth (path.under keyNode) node
    optionEntries depth path rest (options.set name value)

/-- Reads options. -/
def options (place : Place) (node : Node) : Reading Options :=
  mapping .table (fun depth entries => optionEntries depth place.path entries []) place node

/-! ## Scalars of any type -/

/-- Reads the entries of a table whose content does not matter. -/
def contentEntries (read : Path → Node → Reading (Option Atom)) (path : Path) :
    List (Node × Node) → Reading Unit
  | [] => return ()
  | (keyNode, node) :: rest => do
    let _ ← read path keyNode
    let _ ← read (path.under keyNode) node
    contentEntries read path rest

/-- Reads a node that should be a scalar, its parts by `inner`; none when it is a collection. -/
def contentBy (inner : Option (Path → Node → Reading (Option Atom))) (path : Path) (node : Node) :
    Reading (Option Atom) :=
  let readTag : Option Tag → Reading Unit
    | some (.own _) => complain .taggedScalar
    | _ => return ()
  located path do
    match ← resolve node with
    | .scalar _ s =>
      readTag s.tag
      match s.atom with
      | .error complaint => complain complaint
      | .ok (.wideInt n) => complain (.wrongType (.atom (.wideInt n)) .content)
      | .ok atom => return some atom
    | .sequence _ tag nodes =>
      readTag tag
      let read ← deeper inner
      let _ ← items read path 0 nodes
      return none
    | .mapping _ tag entries =>
      readTag tag
      let read ← deeper inner
      contentEntries read path entries
      return none
    | .alias _ | .cut => brokenOff

/-- Reads a node that should be a scalar, through collections that nest up to `depth` deep. -/
def content : (depth : Nat) → Path → Node → Reading (Option Atom)
  | 0 => contentBy none
  | depth + 1 => contentBy (some (content depth))

/-- Reads a scalar of any type as text. -/
def scalarText (place : Place) (node : Node) : Reading String := do
  match (← content place.depth place.path node).bind Atom.fieldText? with
  | some text => return text
  | none => complain .noScalar

end Reading

end Provision.Yaml
