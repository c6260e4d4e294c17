import Provision.Text.Size
import Provision.Yaml.Char

/-!
# A place in a document

A cursor is what is left of the text together with the offset, line and column reached. Offsets
count octets of UTF-8, lines the breaks passed, and columns the characters since the last one.
-/

namespace Provision.Yaml

/-- The rest of a document and where it starts. -/
structure Cursor where
  rest : List Char
  offset : Nat
  line : Nat
  column : Nat
deriving Repr

namespace Cursor

/-- The start of a text. -/
def start (text : List Char) : Cursor := ⟨text, 0, 0, 0⟩

/-- The next character. -/
def next? (c : Cursor) : Option Char := c.rest.head?

/-- Past `n` characters of the line. -/
def skip (c : Cursor) (n : Nat) : Cursor :=
  ⟨c.rest.drop n, c.offset + Text.size (c.rest.take n), c.line, c.column + n⟩

/-- The characters up to the first that fails `p`, none of which is a break, and the cursor there. -/
def span (c : Cursor) (p : Char → Bool) : List Char × Cursor :=
  let taken := c.rest.takeWhile p
  (taken, c.skip taken.length)

/-- Past the characters that satisfy `p`. -/
def skipWhile (c : Cursor) (p : Char → Bool) : Cursor := (c.span p).2

/-- Past the rest of the line, up to its break. -/
def skipLine (c : Cursor) : Cursor := c.skipWhile (!isBreak ·)

/-- Past a line break, with the text it stands for: the Unicode separators are kept, every other
break is a line feed. -/
def takeBreak (c : Cursor) : List Char × Cursor :=
  match c.rest with
  | '\r' :: '\n' :: rest => (['\n'], ⟨rest, c.offset + 2, c.line + 1, 0⟩)
  | '\u2028' :: rest => (['\u2028'], ⟨rest, c.offset + 3, c.line + 1, 0⟩)
  | '\u2029' :: rest => (['\u2029'], ⟨rest, c.offset + 3, c.line + 1, 0⟩)
  | b :: rest =>
    if isBreak b then (['\n'], ⟨rest, c.offset + b.utf8Size, c.line + 1, 0⟩) else ([], c)
  | [] => ([], c)

/-- Past a byte order mark that starts a line. -/
def skipByteOrderMark (c : Cursor) : Cursor :=
  if c.column == 0 && c.next? == some '\ufeff' then c.skip 1 else c

/-- Whether the next character is a break. -/
def atBreak (c : Cursor) : Bool := c.next?.any isBreak

/-- Whether the next character is a blank or a break. -/
def atSpace (c : Cursor) : Bool := c.next?.any fun x => isBlank x || isBreak x

/-- Whether the line starts here with `---` or `...` as a word. -/
def atDocumentMarker (c : Cursor) : Bool := c.column == 0 && startsDocumentMarker c.rest

end Cursor

end Provision.Yaml
