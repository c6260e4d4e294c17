/-!
# Character classes of YAML 1.1

Line breaks are the line feed, the carriage return, `U+0085` and the two Unicode separators; blanks
are the space and the tab. A test that looks past the end of the text sees an end, which counts as
blank where a blank may follow.
-/

namespace Provision.Yaml

/-- Whether a document may contain the character at all, even quoted. -/
def isAllowed (c : Char) : Bool :=
  let n := c.toNat
  n == 0x09 || n == 0x0a || n == 0x0d || (0x20 ≤ n && n ≤ 0x7e) || n == 0x85 ||
    (0xa0 ≤ n && n ≤ 0xd7ff) || (0xe000 ≤ n && n ≤ 0xfffd) || 0x10000 ≤ n

def isBreak (c : Char) : Bool :=
  c == '\n' || c == '\r' || c == '\u0085' || c == '\u2028' || c == '\u2029'

def isBlank (c : Char) : Bool :=
  c == ' ' || c == '\t'

/-- Whether the text ends here or goes on with a blank or a break. -/
def endsWord : Option Char → Bool
  | none => true
  | some c => isBlank c || isBreak c

/-- Characters of anchor names, directive names and tag handles. -/
def isNameChar (c : Char) : Bool :=
  c.isAlphanum || c == '-' || c == '_'

/-- Characters of a tag besides those of names; `verbatim` tags may hold flow indicators too. -/
def isTagChar (verbatim : Bool) (c : Char) : Bool :=
  isNameChar c || ";/?:@&=+$.%!~*'()".toList.contains c || (verbatim && ",[]".toList.contains c)

/-- The value of a hexadecimal digit. -/
def hexValue? (c : Char) : Option Nat :=
  if '0' ≤ c ∧ c ≤ '9' then some (c.toNat - '0'.toNat)
  else if 'a' ≤ c ∧ c ≤ 'f' then some (c.toNat - 'a'.toNat + 10)
  else if 'A' ≤ c ∧ c ≤ 'F' then some (c.toNat - 'A'.toNat + 10)
  else none

/-- Whether the text begins with three characters `c` that end a word. -/
def startsMarker (c : Char) (text : List Char) : Bool :=
  text.take 3 == [c, c, c] && endsWord text[3]?

/-- Whether the text begins with `---` or `...` as a word. -/
def startsDocumentMarker (text : List Char) : Bool :=
  startsMarker '-' text || startsMarker '.' text

end Provision.Yaml
