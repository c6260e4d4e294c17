import Provision.Yaml.Token.Scan

/-!
# Events of a document

The tokens of a document spell a tree in an order that a reader can follow without looking ahead:
scalars and aliases, and the start and end of every collection. Entries may leave their key or
value out, which stands for an empty plain scalar. A `Reader` remembers what each open collection
expects next.
-/

namespace Provision.Yaml

/-- The anchor and the tag octets in front of a node. -/
structure Properties where
  anchor : Option (List Char)
  tag : Option (List UInt8)
deriving DecidableEq, Repr

inductive Event
  | documentStart
  | documentEnd
  | streamEnd
  | alias (name : List Char)
  | scalar (properties : Properties) (style : ScalarStyle) (text : List Char)
  | sequenceStart (properties : Properties)
  | sequenceEnd
  | mappingStart (properties : Properties)
  | mappingEnd
deriving DecidableEq, Repr

/-- What an open document or collection expects next. -/
inductive Expect
  | implicitDocument
  | document
  | content
  | documentEnd
  | node
  | blockEntry
  | indentlessEntry
  | blockKey
  | blockValue
  | flowItem (first : Bool)
  | pairKey
  | pairValue
  | pairEnd
  | flowKey (first : Bool)
  | flowValue
  | flowNoValue
deriving DecidableEq, Repr

/-- A reading under way: the tokens to come, what is expected of them, innermost first, and the tag
handles of the document. -/
structure Reader where
  tokens : List Token
  expect : List Expect
  handles : List (List Char × List UInt8)

/-- Why there is no next event: the text breaks the rules here, or the tokens are used up. -/
inductive Halt
  | fault (cause : SyntaxFault)
  | outOfTokens

namespace Reader

/-- The event read, and the reader after it. -/
abbrev Step := Except Halt (Event × Reader)

/-- The next token. -/
def peek (r : Reader) : Except Halt Token :=
  match r.tokens with
  | t :: _ => .ok t
  | [] => .error .outOfTokens

/-- Past the next token. -/
def drop (r : Reader) : Reader := { r with tokens := r.tokens.tail }

/-- Expecting something else instead of the innermost expectation. -/
def become (r : Reader) (e : Expect) : Reader := { r with expect := e :: r.expect.tail }

/-- Done with the innermost expectation. -/
def leave (r : Reader) : Reader := { r with expect := r.expect.tail }

def fail {α : Type} (cause : SyntaxFault) : Except Halt α := .error (.fault cause)

/-- The event of a node that was left out. -/
def emptyScalar : Event := .scalar ⟨none, none⟩ .plain []

/-! ## Documents -/

/-- The tag handles of every document: local tags, and those of YAML itself. -/
def defaultHandles : List (List Char × List UInt8) :=
  [(['!'], ['!'.toUInt8]), (['!', '!'], "tag:yaml.org,2002:".toUTF8.toList)]

/-- Reads the directives of a document; handles may not repeat, and neither may the version. -/
def directives : (tokens : List Token) → (versioned : Bool) → List (List Char × List UInt8) →
    Except Halt (List Token × List (List Char × List UInt8))
  | .version major minor :: rest, versioned, handles =>
    if versioned then fail .repeatedDirective
    else if major ≠ 1 ∨ (minor ≠ 1 ∧ minor ≠ 2) then fail .badVersion
    else directives rest true handles
  | .tagDirective handle expansion :: rest, versioned, handles =>
    if (handles.lookup handle).isSome then fail .repeatedDirective
    else directives rest versioned (handles ++ [(handle, expansion)])
  | tokens, _, handles => .ok (tokens, handles)

/-- Starts a document, or ends the stream. -/
def startDocument (r : Reader) (implicit : Bool) : Step := do
  let r := if implicit then r
    else { r with tokens := r.tokens.dropWhile (· == .documentEnd) }
  let t ← r.peek
  if t == .streamEnd then return (.streamEnd, { r.drop with expect := [] })
  let explicit := match t with
    | .version _ _ | .tagDirective _ _ | .documentStart => true
    | _ => !implicit
  let (tokens, handles) ← directives r.tokens false []
  let r := { r with tokens, handles := handles ++ defaultHandles }
  if !explicit then return (.documentStart, { r with expect := [.node, .documentEnd] })
  if (← r.peek) != .documentStart then fail .expectedDocumentStart
  return (.documentStart, { r.drop with expect := [.content, .documentEnd] })

/-- Ends a document. -/
def endDocument (r : Reader) : Step := do
  let t ← r.peek
  let r := if t == .documentEnd then r.drop else r
  return (.documentEnd, { r with expect := [.document], handles := [] })

/-! ## Nodes -/

/-- Reads an anchor and a tag, in either order. -/
def properties (r : Reader) :
    Except Halt (Option (List Char) × Option (List Char × List UInt8) × Reader) := do
  match ← r.peek with
  | .anchor name =>
    match ← r.drop.peek with
    | .tag handle suffix => return (some name, some (handle, suffix), r.drop.drop)
    | _ => return (some name, none, r.drop)
  | .tag handle suffix =>
    match ← r.drop.peek with
    | .anchor name => return (some name, some (handle, suffix), r.drop.drop)
    | _ => return (none, some (handle, suffix), r.drop)
  | _ => return (none, none, r)

/-- The octets a tag stands for. -/
def expandTag (r : Reader) : Option (List Char × List UInt8) → Except Halt (Option (List UInt8))
  | none => .ok none
  | some ([], suffix) => .ok (some suffix)
  | some (handle, suffix) =>
    match r.handles.lookup handle with
    | some expansion => .ok (some (expansion ++ suffix))
    | none => fail .undefinedTagHandle

/-- Reads a node; the innermost expectation is its own, and what follows it lies below that. Block
collections are read only where `block` holds, and one without indentation of its own only as an
entry of a mapping. -/
def node (r : Reader) (block indentless : Bool) : Step := do
  if let .alias name ← r.peek then return (.alias name, r.drop.leave)
  let (anchor, written, r) ← r.properties
  let tag ← r.expandTag written
  let properties : Properties := ⟨anchor, tag⟩
  let t ← r.peek
  match t with
  | .blockEntry =>
    if indentless then return (.sequenceStart properties, r.become .indentlessEntry)
  | .scalar style text => return (.scalar properties style text, r.drop.leave)
  | .flowSequenceStart => return (.sequenceStart properties, r.drop.become (.flowItem true))
  | .flowMappingStart => return (.mappingStart properties, r.drop.become (.flowKey true))
  | .blockSequenceStart =>
    if block then return (.sequenceStart properties, r.drop.become .blockEntry)
  | .blockMappingStart =>
    if block then return (.mappingStart properties, r.drop.become .blockKey)
  | _ => pure ()
  if anchor.isSome || tag.isSome then return (.scalar properties .plain [], r.leave)
  fail .expectedNode

/-- Reads a node, with the innermost expectation changed to what comes after it. -/
def nodeThen (r : Reader) (after : Expect) (block indentless : Bool) : Step :=
  { r with expect := .node :: (r.become after).expect }.node block indentless

/-- A node that was left out, with the innermost expectation changed to what comes after it. -/
def emptyThen (r : Reader) (after : Expect) : Step :=
  .ok (emptyScalar, r.become after)

/-! ## Collections -/

def blockEntry (r : Reader) : Step := do
  match ← r.peek with
  | .blockEntry =>
    let r := r.drop
    match ← r.peek with
    | .blockEntry | .blockEnd => r.emptyThen .blockEntry
    | _ => r.nodeThen .blockEntry true false
  | .blockEnd => return (.sequenceEnd, r.drop.leave)
  | _ => fail .expectedEntry

def indentlessEntry (r : Reader) : Step := do
  match ← r.peek with
  | .blockEntry =>
    let r := r.drop
    match ← r.peek with
    | .blockEntry | .key | .value | .blockEnd => r.emptyThen .indentlessEntry
    | _ => r.nodeThen .indentlessEntry true false
  | _ => return (.sequenceEnd, r.leave)

def blockKey (r : Reader) : Step := do
  match ← r.peek with
  | .key =>
    let r := r.drop
    match ← r.peek with
    | .key | .value | .blockEnd => r.emptyThen .blockValue
    | _ => r.nodeThen .blockValue true true
  | .blockEnd => return (.mappingEnd, r.drop.leave)
  | _ => fail .expectedKey

def blockValue (r : Reader) : Step := do
  match ← r.peek with
  | .value =>
    let r := r.drop
    match ← r.peek with
    | .key | .value | .blockEnd => r.emptyThen .blockKey
    | _ => r.nodeThen .blockKey true true
  | _ => r.emptyThen .blockKey

def flowItem (r : Reader) (first : Bool) : Step := do
  let close (r : Reader) : Step := .ok (.sequenceEnd, r.drop.leave)
  let t ← r.peek
  if t == .flowSequenceEnd then close r
  else
    let r ← if first then pure r
      else if t == .flowEntry then pure r.drop
      else fail .expectedSequenceEnd
    match ← r.peek with
    | .key =>
      let after := r.drop.become (.flowItem false)
      return (.mappingStart ⟨none, none⟩, { after with expect := .pairKey :: after.expect })
    | .flowSequenceEnd => close r
    | _ => r.nodeThen (.flowItem false) false false

/-- The key of a pair that is an item of a flow sequence. Where none is written, the token in its
place goes with it. -/
def pairKey (r : Reader) : Step := do
  match ← r.peek with
  | .value | .flowEntry | .flowSequenceEnd => r.drop.emptyThen .pairValue
  | _ => r.nodeThen .pairValue false false

def pairValue (r : Reader) : Step := do
  match ← r.peek with
  | .value =>
    let r := r.drop
    match ← r.peek with
    | .flowEntry | .flowSequenceEnd => r.emptyThen .pairEnd
    | _ => r.nodeThen .pairEnd false false
  | _ => r.emptyThen .pairEnd

def pairEnd (r : Reader) : Step := do
  let _ ← r.peek
  return (.mappingEnd, r.leave)

def flowKey (r : Reader) (first : Bool) : Step := do
  let close (r : Reader) : Step := .ok (.mappingEnd, r.drop.leave)
  let t ← r.peek
  if t == .flowMappingEnd then close r
  else
    let r ← if first then pure r
      else if t == .flowEntry then pure r.drop
      else fail .expectedMappingEnd
    match ← r.peek with
    | .key =>
      let r := r.drop
      match ← r.peek with
      | .value | .flowEntry | .flowMappingEnd => r.emptyThen .flowValue
      | _ => r.nodeThen .flowValue false false
    | .flowMappingEnd => close r
    | _ => r.nodeThen .flowNoValue false false

def flowValue (r : Reader) : Step := do
  match ← r.peek with
  | .value =>
    let r := r.drop
    match ← r.peek with
    | .flowEntry | .flowMappingEnd => r.emptyThen (.flowKey false)
    | _ => r.nodeThen (.flowKey false) false false
  | _ => r.emptyThen (.flowKey false)

def flowNoValue (r : Reader) : Step := do
  let _ ← r.peek
  r.emptyThen (.flowKey false)

/-! ## The event stream -/

/-- The next event. -/
def step (r : Reader) : Step :=
  match r.expect with
  | [] => .error .outOfTokens
  | .implicitDocument :: _ => r.startDocument true
  | .document :: _ => r.startDocument false
  | .content :: _ => do
    match ← r.peek with
    | .version _ _ | .tagDirective _ _ | .documentStart | .documentEnd | .streamEnd =>
      return (emptyScalar, r.leave)
    | _ => r.node true false
  | .documentEnd :: _ => r.endDocument
  | .node :: _ => r.node true false
  | .blockEntry :: _ => r.blockEntry
  | .indentlessEntry :: _ => r.indentlessEntry
  | .blockKey :: _ => r.blockKey
  | .blockValue :: _ => r.blockValue
  | .flowItem first :: _ => r.flowItem first
  | .pairKey :: _ => r.pairKey
  | .pairValue :: _ => r.pairValue
  | .pairEnd :: _ => r.pairEnd
  | .flowKey first :: _ => r.flowKey first
  | .flowValue :: _ => r.flowValue
  | .flowNoValue :: _ => r.flowNoValue

/-- All events up to the end of the stream or to what halts the reader. -/
def run : (fuel : Nat) → Reader → List Event × Option Halt
  | 0, _ => ([], none)
  | fuel + 1, r =>
    match r.step with
    | .error halt => ([], some halt)
    | .ok (.streamEnd, _) => ([.streamEnd], none)
    | .ok (event, r) =>
      let (events, halt) := run fuel r
      (event :: events, halt)

end Reader

/-- The events of a text, and the fault that ends them early. -/
def events (text : List Char) : List Event × Option SyntaxFault :=
  let (tokens, fault) := tokens text
  match Reader.run (4 * tokens.length + 8) ⟨tokens, [.implicitDocument], []⟩ with
  | (events, some (.fault cause)) => (events, some cause)
  | (events, some .outOfTokens) => (events, fault)
  | (events, none) => (events, none)

end Provision.Yaml
