import Provision.Yaml.Token.Property

/-!
# The tokens of a text

Whether a token is the key of a mapping entry is known only once a colon follows it, so tokens wait
in a queue while they may still turn out to be one; then a key token goes in front of them. A token
is released as soon as nothing can come before it any more. A fault in the text therefore takes the
waiting tokens with it, while those released before it stand.
-/

namespace Provision.Yaml

/-- A place where a key may have begun. -/
structure PendingKey where
  /-- The number of the token that would be the key. -/
  number : Nat
  /-- How many flow collections are open around it. -/
  depth : Nat
  /-- Whether the layout leaves nothing else for it to be. -/
  required : Bool
  offset : Nat
  line : Nat
  column : Nat
deriving Repr

/-- A scan under way. -/
structure Scan where
  /-- A number of steps that no part of the text is longer than. -/
  fuel : Nat
  /-- Whether the text goes on where its readable part ends. -/
  cutShort : Bool
  cursor : Cursor
  /-- The tokens released, last one first. -/
  released : List Token
  /-- How many tokens have been released. -/
  count : Nat
  queue : List Token
  /-- How many flow collections are open. -/
  depth : Nat
  /-- The pending keys, innermost first: at most one at every depth. -/
  pending : List PendingKey
  /-- The column of the innermost block collection, `-1` outside of all. -/
  indent : Int
  outerIndents : List Int
  /-- Whether a key may begin here. -/
  keyAllowed : Bool
  /-- Whether the end of the text has become a token. -/
  finished : Bool

namespace Scan

def start (text : List Char) (cutShort : Bool) : Scan where
  fuel := text.length + 2
  cutShort
  cursor := .start text
  released := []
  count := 0
  queue := []
  depth := 0
  pending := []
  indent := -1
  outerIndents := []
  keyAllowed := true
  finished := false

/-- Whether a flow collection is open. -/
def inFlow (s : Scan) : Bool := 0 < s.depth

/-- Adds a token at the end. -/
def add (s : Scan) (t : Token) : Scan := { s with queue := s.queue ++ [t] }

/-- Puts a token in front of the one with the given number. -/
def insert (s : Scan) (number : Nat) (t : Token) : Scan :=
  let before := number - s.count
  { s with queue := s.queue.take before ++ t :: s.queue.drop before }

/-- Adds a token and moves on. -/
def addAt (s : Scan) (t : Token) (c : Cursor) : Scan := { s.add t with cursor := c }

/-! ## Keys -/

/-- A key that is on an earlier line, or more than 1024 octets back, is none. -/
def dropStaleKeys (s : Scan) : Except SyntaxFault Scan := do
  let isStale (key : PendingKey) :=
    key.line < s.cursor.line || key.offset + 1024 < s.cursor.offset
  if s.pending.any fun key => isStale key && key.required then throw .keyWithoutColon
  return { s with pending := s.pending.filter (!isStale ·) }

/-- The pending key of the innermost collection, and the others. -/
def splitKey (s : Scan) : Option PendingKey × List PendingKey :=
  match s.pending with
  | key :: outer => if key.depth = s.depth then (some key, outer) else (none, s.pending)
  | [] => (none, [])

/-- Gives up the pending key of the innermost collection. -/
def dropKey (s : Scan) : Except SyntaxFault Scan :=
  let (key?, pending) := s.splitKey
  if key?.any (·.required) then .error .keyWithoutColon else .ok { s with pending }

/-- Notes that the next token may be a key, if one may begin here. -/
def saveKey (s : Scan) : Except SyntaxFault Scan := do
  if !s.keyAllowed then return s
  let s ← s.dropKey
  let key : PendingKey := {
    number := s.count + s.queue.length
    depth := s.depth
    required := !s.inFlow && s.indent == s.cursor.column
    offset := s.cursor.offset
    line := s.cursor.line
    column := s.cursor.column }
  return { s with pending := key :: s.pending }

/-! ## Indentation -/

/-- Opens a block collection at a column further in than the one around it. -/
def indentTo (s : Scan) (column : Nat) (number : Option Nat) (t : Token) : Scan :=
  if s.inFlow || column ≤ s.indent then s
  else
    let s := { s with indent := column, outerIndents := s.indent :: s.outerIndents }
    match number with
    | some n => s.insert n t
    | none => s.add t

/-- Closes the block collections that are further in than a column. -/
def closeBlocks (column : Int) : List Int → Scan → Scan
  | outer :: outers, s =>
    if column < s.indent then
      closeBlocks column outers { s.add .blockEnd with indent := outer, outerIndents := outers }
    else s
  | [], s => s

def unindentTo (s : Scan) (column : Int) : Scan :=
  if s.inFlow then s else closeBlocks column s.outerIndents s

/-! ## Tokens by kind -/

/-- Past blanks, comments, breaks and byte order marks at the start of lines. A tab counts as blank
only where no key may begin, and in a block a key may begin after every break. -/
def skipToToken : (fuel : Nat) → Scan → Scan
  | 0, s => s
  | fuel + 1, s =>
    let tabs := s.inFlow || !s.keyAllowed
    let c := s.cursor.skipByteOrderMark.skipWhile fun x => x == ' ' || (tabs && x == '\t')
    let c := if c.next? == some '#' then c.skipLine else c
    if c.atBreak then
      skipToToken fuel { s with cursor := c.takeBreak.2, keyAllowed := s.keyAllowed || !s.inFlow }
    else { s with cursor := c }

/-- Ends the text: every block closes. -/
def finish (s : Scan) : Except SyntaxFault Scan := do
  let c := s.cursor
  let c := if c.column == 0 then c else { c with line := c.line + 1, column := 0 }
  let s ← ({ s with cursor := c }.unindentTo (-1)).dropKey
  return { s.add .streamEnd with keyAllowed := false, finished := true }

def directive (s : Scan) : Except SyntaxFault Scan := do
  let s ← (s.unindentTo (-1)).dropKey
  let (t, c) ← readDirective s.cursor
  return { s.addAt t c with keyAllowed := false }

def documentMarker (s : Scan) (t : Token) : Except SyntaxFault Scan := do
  let s ← (s.unindentTo (-1)).dropKey
  return { s.addAt t (s.cursor.skip 3) with keyAllowed := false }

def openFlow (s : Scan) (t : Token) : Except SyntaxFault Scan := do
  let s ← s.saveKey
  return { s.addAt t (s.cursor.skip 1) with depth := s.depth + 1, keyAllowed := true }

def closeFlow (s : Scan) (t : Token) : Except SyntaxFault Scan := do
  let s ← s.dropKey
  return { s.addAt t (s.cursor.skip 1) with depth := s.depth - 1, keyAllowed := false }

def flowEntry (s : Scan) : Except SyntaxFault Scan := do
  let s ← s.dropKey
  return { s.addAt .flowEntry (s.cursor.skip 1) with keyAllowed := true }

def blockEntry (s : Scan) : Except SyntaxFault Scan := do
  if !s.inFlow && !s.keyAllowed then throw .entryNotAllowed
  let s ← (s.indentTo s.cursor.column none .blockSequenceStart).dropKey
  return { s.addAt .blockEntry (s.cursor.skip 1) with keyAllowed := true }

def explicitKey (s : Scan) : Except SyntaxFault Scan := do
  if !s.inFlow && !s.keyAllowed then throw .keyNotAllowed
  let s ← (s.indentTo s.cursor.column none .blockMappingStart).dropKey
  return { s.addAt .key (s.cursor.skip 1) with keyAllowed := !s.inFlow }

/-- A colon: the pending key becomes one, and with it a mapping may begin. -/
def valueMarker (s : Scan) : Except SyntaxFault Scan :=
  match s.splitKey with
  | (some key, pending) =>
    let s := (s.insert key.number .key).indentTo key.column (some key.number) .blockMappingStart
    .ok { s.addAt .value (s.cursor.skip 1) with pending, keyAllowed := false }
  | (none, _) => do
    if !s.inFlow && !s.keyAllowed then throw .valueNotAllowed
    let s := s.indentTo s.cursor.column none .blockMappingStart
    return { s.addAt .value (s.cursor.skip 1) with keyAllowed := !s.inFlow }

def anchor (s : Scan) (token : List Char → Token) : Except SyntaxFault Scan := do
  let s ← s.saveKey
  let (name, c) ← readAnchorName (s.cursor.skip 1)
  return { s.addAt (token name) c with keyAllowed := false }

def tag (s : Scan) : Except SyntaxFault Scan := do
  let s ← s.saveKey
  let (t, c) ← readTag s.inFlow s.cursor
  return { s.addAt t c with keyAllowed := false }

def blockScalar (s : Scan) (style : ScalarStyle) : Except SyntaxFault Scan := do
  let s ← s.dropKey
  let (text, c) ← readBlock (style == .folded) s.indent s.fuel (s.cursor.skip 1)
  return { s.addAt (.scalar style text) c with keyAllowed := true }

def quotedScalar (s : Scan) (style : ScalarStyle) : Except SyntaxFault Scan := do
  let s ← s.saveKey
  let (text, c) ← readQuoted (style == .doubleQuoted) s.fuel (s.cursor.skip 1)
  return { s.addAt (.scalar style text) c with keyAllowed := false }

def plainScalar (s : Scan) : Except SyntaxFault Scan := do
  let s ← s.saveKey
  let (text, g, c) ← readPlain s.inFlow (s.indent + 1).toNat s.fuel .empty s.cursor
  return { s.addAt (.scalar .plain text) c with keyAllowed := g.broken }

/-- Whether a plain scalar can begin with this character, given the one after it. -/
def startsPlain (inFlow : Bool) (x : Char) (after : Option Char) : Bool :=
  if "-?:".toList.contains x then
    if x == '-' then !after.any isBlank else !inFlow && !endsWord after
  else !(isBlank x || isBreak x || ",[]\x7b\x7d#&*!|>'\"%@\x60".toList.contains x)

/-- The next token, and those that the layout puts before it. -/
def fetch (s : Scan) : Except SyntaxFault Scan := do
  let s ← (s.skipToToken s.fuel).dropStaleKeys
  let s := s.unindentTo s.cursor.column
  -- to tell a token by its kind takes a look at four characters
  if s.cutShort && (s.cursor.rest.drop 3).isEmpty then throw .controlCharacter
  match s.cursor.rest with
  | [] => s.finish
  | x :: rest =>
    let after := rest.head?
    if s.cursor.column == 0 && x == '%' then s.directive
    else if s.cursor.column == 0 && startsMarker '-' (x :: rest) then s.documentMarker .documentStart
    else if s.cursor.column == 0 && startsMarker '.' (x :: rest) then s.documentMarker .documentEnd
    else if x == '[' then s.openFlow .flowSequenceStart
    else if x == '{' then s.openFlow .flowMappingStart
    else if x == ']' then s.closeFlow .flowSequenceEnd
    else if x == '}' then s.closeFlow .flowMappingEnd
    else if x == ',' then s.flowEntry
    else if x == '-' && endsWord after then s.blockEntry
    else if x == '?' && (s.inFlow || endsWord after) then s.explicitKey
    else if x == ':' && (s.inFlow || endsWord after) then s.valueMarker
    else if x == '*' then s.anchor .alias
    else if x == '&' then s.anchor .anchor
    else if x == '!' then s.tag
    else if x == '|' && !s.inFlow then s.blockScalar .literal
    else if x == '>' && !s.inFlow then s.blockScalar .folded
    else if x == '\'' then s.quotedScalar .singleQuoted
    else if x == '"' then s.quotedScalar .doubleQuoted
    else if startsPlain s.inFlow x after then s.plainScalar
    else throw .noTokenStart

/-! ## The whole text -/

/-- Releases tokens from the front of the queue up to one that may be a key. -/
def release (s : Scan) : List Token → Scan
  | [] => { s with queue := [] }
  | t :: rest =>
    if s.pending.any (·.number == s.count) then { s with queue := t :: rest }
    else release { s with released := t :: s.released, count := s.count + 1 } rest

/-- Fetches and releases until the text is finished or a fault ends it. -/
def run : (fuel : Nat) → Scan → List Token × Option SyntaxFault
  | 0, s => (s.released.reverse, none)
  | fuel + 1, s =>
    match s.fetch.bind dropStaleKeys with
    | .error fault => (s.released.reverse, some fault)
    | .ok s =>
      if s.cutShort && s.cursor.rest.isEmpty then (s.released.reverse, some .controlCharacter)
      else
        let s := s.release s.queue
        if s.finished then ((s.queue.reverse ++ s.released).reverse, none) else run fuel s

end Scan

/-- How many octets of a text are looked at together before any of them is scanned. -/
def blockSize : Nat := 16384

/-- The characters from the front of a text that fit a number of octets, and the others. -/
def splitBlock : (room : Nat) → List Char → List Char × List Char
  | _, [] => ([], [])
  | room, c :: rest =>
    if room < c.utf8Size then ([], c :: rest)
    else
      let (block, others) := splitBlock (room - c.utf8Size) rest
      (c :: block, others)

/-- The blocks in front of the first one that holds a character no document may contain, and
whether there is such a one. -/
def readable : (fuel : Nat) → List Char → List Char × Bool
  | 0, text => (text, false)
  | fuel + 1, text =>
    let (block, others) := splitBlock blockSize text
    if !block.all isAllowed then ([], true)
    else if others.isEmpty then (block, false)
    else
      let (more, cutShort) := readable fuel others
      (block ++ more, cutShort)

/-- The tokens of a text, and the fault that ends them early. A character that no document may
contain is a fault as soon as its block is reached. -/
def tokens (text : List Char) : List Token × Option SyntaxFault :=
  let (text, cutShort) := readable (text.length + 1) text
  (Scan.start text cutShort).run (text.length + 2)

end Provision.Yaml
