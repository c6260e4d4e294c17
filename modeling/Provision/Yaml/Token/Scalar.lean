import Provision.Yaml.Cursor
import Provision.Yaml.Fault
import Provision.Yaml.Token.Basic

/-!
# Reading the scalars of a document

Plain and quoted scalars fold the line breaks inside them: one break becomes a space, of more the
first is dropped. Block scalars keep their lines and take their indentation from the first one that
is not empty, unless the header gives it.
-/

namespace Provision.Yaml

/-- The blanks and breaks between two words of a scalar. -/
structure Gap where
  /-- The blanks before the first break. -/
  blanks : List Char
  /-- Whether a break, escaped or not, has been passed. -/
  broken : Bool
  firstBreak : List Char
  laterBreaks : List Char

namespace Gap

def empty : Gap := ⟨[], false, [], []⟩

/-- The gap after an escaped line break. -/
def escapedBreak : Gap := ⟨[], true, [], []⟩

/-- What the gap stands for in the text of the scalar. -/
def text (g : Gap) : List Char :=
  if !g.broken then g.blanks
  else if g.firstBreak = ['\n'] then
    if g.laterBreaks.isEmpty then [' '] else g.laterBreaks
  else g.firstBreak ++ g.laterBreaks

end Gap

/-- Reads on through blanks and breaks. A tab in the indentation of a plain scalar's later lines,
left of `indent`, is refused. -/
def readGap (indent : Nat) : (fuel : Nat) → Gap → Cursor → Except SyntaxFault (Gap × Cursor)
  | 0, g, c => .ok (g, c)
  | fuel + 1, g, c =>
    match c.next? with
    | none => .ok (g, c)
    | some x =>
      if isBlank x then
        if g.broken then
          if c.column < indent ∧ x = '\t' then .error .tabInIndentation
          else readGap indent fuel g (c.skip 1)
        else readGap indent fuel { g with blanks := g.blanks ++ [x] } (c.skip 1)
      else if isBreak x then
        let (text, c) := c.takeBreak
        if g.broken then readGap indent fuel { g with laterBreaks := g.laterBreaks ++ text } c
        else readGap indent fuel ⟨[], true, text, []⟩ c
      else .ok (g, c)

/-! ## Plain scalars -/

/-- The word at the start of the text: up to a blank, a colon that ends a word, or a flow indicator
inside a flow collection. -/
def plainWord (flow : Bool) : List Char → Except SyntaxFault (List Char)
  | [] => .ok []
  | x :: rest =>
    if isBlank x || isBreak x then .ok []
    else if flow && x == ':' && rest.head?.any (",?[]\x7b\x7d".toList.contains ·) then
      .error .colonInFlow
    else if (x == ':' && endsWord rest.head?) || (flow && ",[]\x7b\x7d".toList.contains x) then .ok []
    else (plainWord flow rest).map (x :: ·)

/-- Reads words and gaps up to the end of a plain scalar, after the gap `g`. The last gap is not
part of the text; it is returned because a scalar that ends in a line break may be followed by a
key. The fuel is more than the characters left. -/
def readPlain (flow : Bool) (indent : Nat) :
    (fuel : Nat) → Gap → Cursor → Except SyntaxFault (List Char × Gap × Cursor)
  | 0, g, c => .ok ([], g, c)
  | fuel + 1, g, c =>
    if c.atDocumentMarker || c.next? == some '#' then .ok ([], g, c)
    else do
      let word ← plainWord flow c.rest
      if word.isEmpty then return ([], g, c)
      let front := g.text ++ word
      let c := c.skip word.length
      if !c.atSpace then return (front, .empty, c)
      let (g, c) ← readGap indent (fuel + 1) .empty c
      if !flow && c.column < indent then return (front, g, c)
      let (text, g, c) ← readPlain flow indent fuel g c
      return (front ++ text, g, c)

/-! ## Quoted scalars -/

/-- The character that a one-letter escape stands for. -/
def escapedChar? : Char → Option Char
  | '0' => some '\x00'
  | 'a' => some '\x07'
  | 'b' => some '\x08'
  | 't' => some '\t'
  | '\t' => some '\t'
  | 'n' => some '\n'
  | 'v' => some '\x0b'
  | 'f' => some '\x0c'
  | 'r' => some '\r'
  | 'e' => some '\x1b'
  | ' ' => some ' '
  | '"' => some '"'
  | '/' => some '/'
  | '\\' => some '\\'
  | 'N' => some '\u0085'
  | '_' => some '\u00a0'
  | 'L' => some '\u2028'
  | 'P' => some '\u2029'
  | _ => none

/-- The number of hexadecimal digits after an escape letter. -/
def escapeWidth? : Char → Option Nat
  | 'x' => some 2
  | 'u' => some 4
  | 'U' => some 8
  | _ => none

/-- The character with these hexadecimal digits, which must be a Unicode scalar value. -/
def hexChar? (digits : List Char) : Option Char := do
  let value := (← digits.mapM hexValue?).foldl (fun n d => 16 * n + d) 0
  if h : value.isValidChar then some (Char.ofNatAux value h) else none

/-- What ended a run of characters between the quotes. -/
inductive RunEnd
  | space
  | quote
  | escapedBreak
deriving DecidableEq

/-- A run with a character in front. -/
def withChar (x : Char) (run : Except SyntaxFault (List Char × RunEnd × Cursor)) :
    Except SyntaxFault (List Char × RunEnd × Cursor) :=
  run.map fun (text, ending, c) => (x :: text, ending, c)

/-- Reads characters up to a blank, a break or the closing quote. -/
def readRun (double : Bool) :
    (fuel : Nat) → Cursor → Except SyntaxFault (List Char × RunEnd × Cursor)
  | 0, c => .ok ([], .space, c)
  | fuel + 1, c =>
    match c.rest with
    | [] => .ok ([], .space, c)
    | '\'' :: '\'' :: _ => withChar '\'' (readRun double fuel (c.skip (if double then 1 else 2)))
    | '\\' :: rest =>
      if !double then withChar '\\' (readRun double fuel (c.skip 1))
      else
        match rest with
        | [] => .error .badEscape
        | x :: more =>
          if isBreak x then .ok ([], .escapedBreak, (c.skip 1).takeBreak.2)
          else
            match escapedChar? x with
            | some y => withChar y (readRun double fuel (c.skip 2))
            | none =>
              match escapeWidth? x with
              | none => .error .badEscape
              | some width =>
                if (more.take width).length < width then .error .badEscape
                else
                  match hexChar? (more.take width) with
                  | some y => withChar y (readRun double fuel (c.skip (2 + width)))
                  | none => .error .badEscape
    | x :: _ =>
      if isBlank x || isBreak x then .ok ([], .space, c)
      else if x == (if double then '"' else '\'') then .ok ([], .quote, c.skip 1)
      else withChar x (readRun double fuel (c.skip 1))

/-- Reads up to the closing quote. The fuel is more than the characters left. -/
def readQuoted (double : Bool) :
    (fuel : Nat) → Cursor → Except SyntaxFault (List Char × Cursor)
  | 0, _ => .error .unclosedQuote
  | fuel + 1, c =>
    if c.atDocumentMarker then .error .markerInQuotes
    else if c.rest.isEmpty then .error .unclosedQuote
    else do
      let (run, ending, c) ← readRun double (fuel + 1) c
      match ending with
      | .quote => return (run, c)
      | .escapedBreak =>
        -- a quote right after the escaped break ends the scalar before any gap is read
        if c.next? == some (if double then '"' else '\'') then return (run, c.skip 1)
        let (g, c) ← readGap 0 (fuel + 1) .escapedBreak c
        let (text, c) ← readQuoted double fuel c
        return (run ++ g.text ++ text, c)
      | .space =>
        let (g, c) ← readGap 0 (fuel + 1) .empty c
        let (text, c) ← readQuoted double fuel c
        return (run ++ g.text ++ text, c)

/-! ## Block scalars -/

/-- What happens to the line breaks at the end of a block scalar. -/
inductive Chomping
  | strip
  | clip
  | keep
deriving DecidableEq

/-- Reads a chomping indicator. -/
def readChomping (c : Cursor) : Option (Chomping × Cursor) :=
  match c.next? with
  | some '+' => some (.keep, c.skip 1)
  | some '-' => some (.strip, c.skip 1)
  | _ => none

/-- Reads an indentation indicator, which is not zero. -/
def readIndentation (c : Cursor) : Except SyntaxFault (Option (Nat × Cursor)) :=
  match c.next? with
  | some x =>
    if x == '0' then .error .badBlockHeader
    else if x.isDigit then .ok (some (x.toNat - '0'.toNat, c.skip 1))
    else .ok none
  | none => .ok none

/-- Reads the two optional indicators of a block scalar, in either order. -/
def readBlockHeader (c : Cursor) : Except SyntaxFault (Chomping × Option Nat × Cursor) := do
  match readChomping c with
  | some (chomping, c) =>
    match ← readIndentation c with
    | some (n, c) => return (chomping, some n, c)
    | none => return (chomping, none, c)
  | none =>
    match ← readIndentation c with
    | some (n, c) =>
      match readChomping c with
      | some (chomping, c) => return (chomping, some n, c)
      | none => return (.clip, some n, c)
    | none => return (.clip, none, c)

/-- Reads blanks and a comment up to the end of the line, and the break there. -/
def readLineEnd (fault : SyntaxFault) (c : Cursor) : Except SyntaxFault Cursor :=
  let c := c.skipWhile isBlank
  let c := if c.next? == some '#' then c.skipLine else c
  match c.next? with
  | none => .ok c
  | some x => if isBreak x then .ok c.takeBreak.2 else .error fault

/-- Reads empty lines and indentation before a line of a block scalar, up to column `indent`; with
no `indent` yet, all the spaces of each line. Returns the breaks passed and the widest indentation
seen. -/
def readEmptyLines (indent : Option Nat) :
    (fuel : Nat) → (breaks : List Char) → (widest : Nat) → Cursor →
      Except SyntaxFault (List Char × Nat × Cursor)
  | 0, breaks, widest, c => .ok (breaks, widest, c)
  | fuel + 1, breaks, widest, c =>
    let spaces := (c.rest.takeWhile (· == ' ')).length
    let c := c.skip (match indent with
      | some n => min spaces (n - c.column)
      | none => spaces)
    let widest := max widest c.column
    if c.next? == some '\t' && indent.all (c.column < ·) then .error .tabInIndentation
    else if c.atBreak then
      let (text, c) := c.takeBreak
      readEmptyLines indent fuel (breaks ++ text) widest c
    else .ok (breaks, widest, c)

/-- What has been read of a block scalar. -/
structure BlockText where
  text : List Char
  /-- The break that ended the last line, and the empty lines after it. -/
  lineBreak : List Char
  emptyLines : List Char
  /-- Whether the last line starts with a blank. -/
  blankStart : Bool

/-- The break between two lines of a block scalar. In a folded scalar a single line feed between
lines that start with no blank is a space, and one before empty lines is dropped. -/
def BlockText.joint (b : BlockText) (folded nextBlank : Bool) : List Char :=
  if folded && b.lineBreak.head? == some '\n' && !b.blankStart && !nextBlank then
    if b.emptyLines.isEmpty then [' '] else b.emptyLines
  else b.lineBreak ++ b.emptyLines

/-- Reads the lines of a block scalar that start at column `indent`. -/
def readBlockLines (folded : Bool) (indent : Nat) :
    (fuel : Nat) → BlockText → Cursor → Except SyntaxFault (BlockText × Cursor)
  | 0, b, c => .ok (b, c)
  | fuel + 1, b, c =>
    match c.next? with
    | none => .ok (b, c)
    | some x =>
      if c.column ≠ indent then .ok (b, c)
      else do
        let (line, c) := c.span (!isBreak ·)
        let (lineBreak, c) := c.takeBreak
        let (emptyLines, _, c) ← readEmptyLines (some indent) (fuel + 1) [] 0 c
        readBlockLines folded indent fuel
          ⟨b.text ++ b.joint folded (isBlank x) ++ line, lineBreak, emptyLines, isBlank x⟩ c

/-- Reads a block scalar after its indicator, in a block indented to `outer` (`-1` at the top). The
fuel is more than the characters left. -/
def readBlock (folded : Bool) (outer : Int) (fuel : Nat) (c : Cursor) :
    Except SyntaxFault (List Char × Cursor) := do
  let (chomping, increment, c) ← readBlockHeader c
  let c ← readLineEnd .badBlockHeader c
  let given := increment.map fun n => (max outer 0).toNat + n
  let (emptyLines, widest, c) ← readEmptyLines given fuel [] 0 c
  let indent := given.getD (max (max widest (outer + 1).toNat) 1)
  let (b, c) ← readBlockLines folded indent fuel ⟨[], [], emptyLines, false⟩ c
  let text := match chomping with
    | .strip => b.text
    | .clip => b.text ++ b.lineBreak
    | .keep => b.text ++ b.lineBreak ++ b.emptyLines
  return (text, c)

end Provision.Yaml
