import Provision.Yaml.Token.Basic

/-!
# Node trees

A document read in full is a tree of scalars, sequences and mappings. Aliases stay in it as leaves
that name the node they stand for, and where a fault in the text ends the document early the tree
has a `cut` leaf; everything before that leaf was read.
-/

namespace Provision.Yaml

/-- What a tag says about a node. -/
inductive Tag
  | null
  | boolean
  | integer
  | float
  /-- A tag of the document's own, by its name after the `!`. -/
  | own (name : String)
  /-- Any other tag; it decides nothing, but a scalar under it is a text. -/
  | foreign
  /-- A local tag whose octets spell no text. -/
  | illFormed
deriving DecidableEq, Repr

namespace Tag

/-- The tag that these octets spell. -/
def ofOctets (octets : List UInt8) : Tag :=
  match String.fromUTF8? ⟨octets.toArray⟩ with
  | none => if octets.head? == some '!'.toUInt8 then .illFormed else .foreign
  | some text =>
    match text.toList with
    | '!' :: rest =>
      -- one more exclamation mark in front of a name is not part of it
      match rest with
      | [] => .own "!"
      | ['!'] => .own "!"
      | '!' :: name => .own (String.ofList name)
      | name => .own (String.ofList name)
    | _ =>
      if text = "tag:yaml.org,2002:null" then .null
      else if text = "tag:yaml.org,2002:bool" then .boolean
      else if text = "tag:yaml.org,2002:int" then .integer
      else if text = "tag:yaml.org,2002:float" then .float
      else .foreign

end Tag

/-- A scalar: its text, its tag and how it is written. -/
structure Scalar where
  text : String
  tag : Option Tag
  style : ScalarStyle
deriving DecidableEq, Repr

/-- A node of a document. The anchors are numbers given to their names. -/
inductive Node
  | scalar (anchor : Option Nat) (scalar : Scalar)
  | sequence (anchor : Option Nat) (tag : Option Tag) (items : List Node)
  | mapping (anchor : Option Nat) (tag : Option Tag) (entries : List (Node × Node))
  | alias (target : Nat)
  | cut
deriving Repr

namespace Node

mutual

/-- Whether a fault in the text ends the document within this node. -/
def isCut : Node → Bool
  | .scalar _ _ => false
  | .sequence _ _ items => anyCut items
  | .mapping _ _ entries => anyEntryCut entries
  | .alias _ => false
  | .cut => true

def anyCut : List Node → Bool
  | [] => false
  | node :: rest => isCut node || anyCut rest

def anyEntryCut : List (Node × Node) → Bool
  | [] => false
  | (key, value) :: rest => isCut key || isCut value || anyEntryCut rest

end

/-- The nodes with an anchor at the top, in front of others. -/
def withAnchor (anchor : Option Nat) (node : Node) (found : List (Nat × Node)) :
    List (Nat × Node) :=
  match anchor with
  | some id => (id, node) :: found
  | none => found

mutual

/-- The anchored nodes of a tree in document order. -/
def anchored : Node → List (Nat × Node)
  | .scalar anchor s => withAnchor anchor (.scalar anchor s) []
  | .sequence anchor tag items =>
    withAnchor anchor (.sequence anchor tag items) (anchoredItems items)
  | .mapping anchor tag entries =>
    withAnchor anchor (.mapping anchor tag entries) (anchoredEntries entries)
  | .alias _ => []
  | .cut => []

def anchoredItems : List Node → List (Nat × Node)
  | [] => []
  | node :: rest => anchored node ++ anchoredItems rest

def anchoredEntries : List (Node × Node) → List (Nat × Node)
  | [] => []
  | (key, value) :: rest => anchored key ++ anchored value ++ anchoredEntries rest

end

end Node

end Provision.Yaml
