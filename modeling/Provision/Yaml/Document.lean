import Provision.Yaml.Event
import Provision.Yaml.Node

/-!
# Documents

A document is built from its events with a stack of open collections. Anchors are numbered by how
many different names the document has defined so far, and a number belongs to the last node that
got it.
-/

namespace Provision.Yaml

/-- Why a document ends early. -/
inductive Break
  | malformed (cause : SyntaxFault)
  | unknownAnchor
deriving DecidableEq, Repr

/-- A document as far as it could be read. -/
structure Document where
  /-- The root; none in a stream without documents. -/
  root : Option Node
  /-- The anchored nodes, the last one of each number first. -/
  anchors : List (Nat × Node)
  /-- How many events spell the document. -/
  size : Nat
  /-- Why the tree has a cut, if it does. -/
  brokenBy : Option Break
  /-- Whether the stream goes on after the document. -/
  hasMore : Bool

/-- A collection whose end is still to come, with its parts so far, last one first. -/
inductive Frame
  | sequence (anchor : Option Nat) (tag : Option Tag) (items : List Node)
  | mapping (anchor : Option Nat) (tag : Option Tag) (entries : List (Node × Node))
      (key : Option Node)

namespace Frame

/-- The frame after one more part. -/
def add (node : Node) : Frame → Frame
  | .sequence anchor tag items => .sequence anchor tag (node :: items)
  | .mapping anchor tag entries none => .mapping anchor tag entries (some node)
  | .mapping anchor tag entries (some key) => .mapping anchor tag ((key, node) :: entries) none

/-- The collection, ended here. -/
def close : Frame → Node
  | .sequence anchor tag items => .sequence anchor tag items.reverse
  | .mapping anchor tag entries _ => .mapping anchor tag entries.reverse

/-- The collection, ended by a cut in the place of its next part. -/
def closeCut : Frame → Node
  | .sequence anchor tag items => .sequence anchor tag (.cut :: items).reverse
  | .mapping anchor tag entries none => .mapping anchor tag ((.cut, .cut) :: entries).reverse
  | .mapping anchor tag entries (some key) =>
    .mapping anchor tag ((key, .cut) :: entries).reverse

end Frame

/-- A document under construction. -/
structure Builder where
  /-- The open collections, innermost first. -/
  frames : List Frame
  root : Option Node
  /-- The anchor names and their numbers. -/
  names : List (List Char × Nat)
  size : Nat

namespace Builder

def start : Builder := ⟨[], none, [], 0⟩

/-- Adds a finished node. -/
def add (b : Builder) (node : Node) : Builder :=
  match b.frames with
  | frame :: outer => { b with frames := frame.add node :: outer }
  | [] => { b with root := some node }

/-- The number for an anchor name: the count of different names before it. -/
def number (b : Builder) : Option (List Char) → Option Nat × Builder
  | none => (none, b)
  | some name =>
    let id := b.names.length
    (some id, { b with names := (name, id) :: b.names.filter (·.1 != name) })

/-- Opens a collection. -/
def opened (b : Builder) (p : Properties) (frame : Option Nat → Option Tag → Frame) : Builder :=
  let (anchor, b) := b.number p.anchor
  { b with frames := frame anchor (p.tag.map .ofOctets) :: b.frames }

/-- Closes the innermost collection. -/
def close (b : Builder) : Builder :=
  match b.frames with
  | frame :: outer => { b with frames := outer }.add frame.close
  | [] => b

/-- Closes every collection with a cut. -/
def closeCut : (frames : List Frame) → Option Node → Option Node
  | [], root => root
  | frame :: outer, none => closeCut outer (some frame.closeCut)
  | frame :: outer, some inner => closeCut outer (some (closeOver frame inner))
where
  /-- The collection, ended after an inner one that has a cut. -/
  closeOver (frame : Frame) (inner : Node) : Node :=
    match frame.add inner with
    | .mapping anchor tag entries (some key) => .mapping anchor tag ((key, .cut) :: entries).reverse
    | frame => frame.close

/-- The document so far, broken off. -/
def broken (b : Builder) (brokenBy : Break) : Document :=
  let root := match b.root with
    | some root => some root
    | none => some ((closeCut b.frames none).getD .cut)
  ⟨root, (root.map Node.anchored).getD [] |>.reverse, b.size, some brokenBy, false⟩

/-- The document at its end. -/
def finished (b : Builder) (hasMore : Bool) : Document :=
  ⟨b.root, (b.root.map Node.anchored).getD [] |>.reverse, b.size, none, hasMore⟩

/-- Follows the events of a document up to its end. -/
def follow (fault : Option SyntaxFault) : List Event → Builder → Document
  | [], b =>
    match fault with
    | some cause => b.broken (.malformed cause)
    | none => b.finished false
  | event :: rest, b =>
    let counted := { b with size := b.size + 1 }
    match event with
    | .documentStart => follow fault rest b
    | .documentEnd => b.finished (rest != [.streamEnd])
    | .streamEnd => b.finished false
    | .alias name =>
      match b.names.lookup name with
      | some id => follow fault rest (counted.add (.alias id))
      | none => b.broken .unknownAnchor
    | .scalar p style text =>
      let (anchor, b) := counted.number p.anchor
      follow fault rest
        (b.add (.scalar anchor ⟨String.ofList text, p.tag.map .ofOctets, style⟩))
    | .sequenceStart p =>
      follow fault rest (counted.opened p fun anchor tag => .sequence anchor tag [])
    | .mappingStart p =>
      follow fault rest (counted.opened p fun anchor tag => .mapping anchor tag [] none)
    | .sequenceEnd | .mappingEnd => follow fault rest counted.close

end Builder

namespace Document

/-- The first document of a text, and whether it is the only one. -/
def ofText (text : String) : Document :=
  let (events, fault) := events text.toList
  Builder.start.follow fault events

/-- The node with an anchor number. -/
def anchor? (d : Document) (id : Nat) : Option Node :=
  d.anchors.lookup id

end Document

end Provision.Yaml
