import Provision.Yaml.Reading
import Provision.Yaml.ScalarText

/-!
# How nodes are written

Collections are written in block style, two columns to a level; a list under a key begins at the
column of the key, and empty collections are a pair of brackets. Values become nodes whose scalars
read back as the same values: a text that would be read as something else asks for quotes, and one
with several lines for a block.
-/

namespace Provision.Yaml

/-! ## Nodes of values -/

/-- The style a text asks for. -/
def textStyle (text : String) : ScalarStyle :=
  if text.toList.contains '\n' then .literal
  else match plainAtom text with
    | .text _ => if isPadded text.toList then .singleQuoted else .plain
    | _ => .singleQuoted

/-- A plain scalar. -/
def Node.plain (text : String) (tag : Option Tag) : Node :=
  .scalar none ⟨text, tag, .plain⟩

/-- Whether a table is nothing but a key that is itself tagged or such a table. A table that
begins with such a key cannot be told from the key. -/
def isLoneKey : Value → Bool
  | .tagged _ _ => true
  | .table [_] => true
  | _ => false

mutual

/-- The node of a value under a tag, if the value has a written form. -/
def Node.ofValue? (tag : Option Tag) : Value → Option Node
  | .null => some (.plain "null" tag)
  | .bool b => some (.plain (if b then "true" else "false") tag)
  | .int n => some (.plain (toString n) tag)
  | .float x => some (.plain (x.text .document) tag)
  | .text s => some (.scalar none ⟨s, tag, textStyle s⟩)
  | .list items => (nodesOfItems? items).map (.sequence none tag)
  | .table [(key, value)] =>
    if tag.isNone && isLoneKey key then none
    else do
      let key ← Node.ofValue? none key
      let value ← Node.ofValue? none value
      return .mapping none tag [(key, value)]
  | .table entries => (nodesOfEntries? entries).map (.mapping none tag)
  | .tagged name value => if tag.isNone then Node.ofValue? (some (.own name)) value else none

def nodesOfItems? : List Value → Option (List Node)
  | [] => some []
  | item :: rest => do
    let node ← Node.ofValue? none item
    return node :: (← nodesOfItems? rest)

def nodesOfEntries? : List (Value × Value) → Option (List (Node × Node))
  | [] => some []
  | (key, value) :: rest => do
    let keyNode ← Node.ofValue? none key
    let node ← Node.ofValue? none value
    return (keyNode, node) :: (← nodesOfEntries? rest)

end

/-! ## Tags -/

/-- Whether an octet of a tag can stand for itself. -/
def isTagOctet (octet : UInt8) : Bool :=
  let c := Char.ofNat octet.toNat
  octet < 128 && (isNameChar c || ";/?:@&=+$,.~*'()[]".toList.contains c)

/-- An octet of a tag. -/
def tagOctet (octet : UInt8) : List Char :=
  if isTagOctet octet then [Char.ofNat octet.toNat] else '%' :: hexDigits 2 octet.toNat

/-- The octets of a tag's name, without an exclamation mark in front. -/
def tagOctets (name : List Char) : List UInt8 :=
  (String.ofList name).toUTF8.toList

/-- A tag as it is written; only tags of the document's own are. -/
def tagText : Option Tag → List Char
  | some (.own name) =>
    match name.toList with
    | ['!'] => ['!', '<'] ++ tagOctet '!'.toUInt8 ++ ['>']
    | '!' :: rest => '!' :: (tagOctets rest).flatMap tagOctet
    | rest => '!' :: (tagOctets rest).flatMap tagOctet
  | _ => []

/-- How many octets a tag has, its exclamation mark included. -/
def tagSize : Option Tag → Nat
  | some (.own name) => if name.startsWith "!" then name.utf8ByteSize else name.utf8ByteSize + 1
  | _ => 0

/-! ## Text -/

/-- Where a node stands: at the root, after the dash of an item, after the colon of a key on one
line, or after a question mark or a colon with lines of their own. -/
inductive Slot
  | root
  | item
  | value
  | part
deriving DecidableEq, Repr

/-- Up to column `indent`, on a new line unless the text before has ended one. -/
def lineAfter (before : List Char) (indent : Nat) : List Char :=
  if before.getLast?.any isBreak then pad indent else '\n' :: pad indent

/-- What stands between a place and a node that stays on its line. -/
def gap (slot : Slot) : List Char :=
  if slot = .root then [] else [' ']

/-- Two texts with a blank between them. -/
def spaced (a b : List Char) : List Char :=
  if a.isEmpty then b else if b.isEmpty then a else a ++ ' ' :: b

/-- Whether a node is a key that fits on the line of its value. -/
def isSimpleKey : Node → Bool
  | .scalar _ s =>
    !s.text.toList.any isBreak && tagSize s.tag + s.text.utf8ByteSize ≤ 128
  | .sequence _ tag [] => tagSize tag ≤ 128
  | .mapping _ tag [] => tagSize tag ≤ 128
  | .sequence _ _ _ | .mapping _ _ _ => false
  | .alias _ | .cut => true

/-- A scalar with its tag; lines of its own begin two columns in. -/
def scalarText (s : Scalar) (indent : Nat) (inKey : Bool) : List Char :=
  let text := s.text.toList
  spaced (tagText s.tag) (styledText (writtenStyle s.style text inKey) (indent + 2) text)

/-- The column of a collection's parts within one at `indent`. -/
def innerIndent (slot : Slot) (indent : Nat) (tag : Option Tag) (isList : Bool) : Nat :=
  match slot with
  | .root => 0
  | .value => if isList then indent else indent + 2
  | .part => if isList && tag.isSome then indent else indent + 2
  | .item => indent + 2

/-- What stands between a place and the first part of a collection. -/
def opening (slot : Slot) (indent : Nat) (tag : Option Tag) : List Char :=
  match slot, tagText tag with
  | .root, [] => []
  | .item, [] | .part, [] => [' ']
  | .value, [] => '\n' :: pad indent
  | slot, tag => gap slot ++ tag ++ '\n' :: pad indent

mutual

/-- The text of a node in a place, within a collection at column `indent`. Written nodes have no
aliases and no cuts. -/
def Node.textIn (slot : Slot) (indent : Nat) : Node → List Char
  | .scalar _ s => gap slot ++ scalarText s indent false
  | .sequence _ tag [] => gap slot ++ spaced (tagText tag) ['[', ']']
  | .mapping _ tag [] => gap slot ++ spaced (tagText tag) ['{', '}']
  | .sequence _ tag (item :: rest) =>
    let inner := innerIndent slot indent tag true
    opening slot inner tag ++ itemsText inner ('-' :: Node.textIn .item inner item) rest
  | .mapping _ tag (entry :: rest) =>
    let inner := innerIndent slot indent tag false
    opening slot inner tag ++ entriesText inner (entryText inner entry) rest
  | .alias _ | .cut => []

/-- The text of items at a column, after the text of those before. -/
def itemsText (indent : Nat) (before : List Char) : List Node → List Char
  | [] => before
  | item :: rest =>
    itemsText indent (before ++ lineAfter before indent ++ '-' :: Node.textIn .item indent item) rest

/-- The text of an entry at a column. -/
def entryText (indent : Nat) : Node × Node → List Char
  | (key, value) =>
    if isSimpleKey key then
      keyText indent key ++ ':' :: Node.textIn .value indent value
    else
      let key := '?' :: Node.textIn .part indent key
      key ++ lineAfter key indent ++ ':' :: Node.textIn .part indent value

/-- The text of a key on one line. -/
def keyText (indent : Nat) : Node → List Char
  | .scalar _ s => scalarText s indent true
  | .sequence _ tag _ => spaced (tagText tag) ['[', ']']
  | .mapping _ tag _ => spaced (tagText tag) ['{', '}']
  | .alias _ | .cut => []

/-- The text of entries at a column, after the text of those before. -/
def entriesText (indent : Nat) (before : List Char) : List (Node × Node) → List Char
  | [] => before
  | entry :: rest =>
    entriesText indent (before ++ lineAfter before indent ++ entryText indent entry) rest

end

/-- The text of a document with this root. -/
def Node.toText (root : Node) : String :=
  let text := Node.textIn .root 0 root
  String.ofList (text ++ lineAfter text 0)

/-- The text of a document that holds a value. -/
def textOfValue (value : Value) : Except Fault String :=
  match Node.ofValue? none value with
  | some root => .ok root.toText
  | none => .error .unwritable

end Provision.Yaml
