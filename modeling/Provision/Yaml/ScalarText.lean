import Provision.Yaml.Char
import Provision.Yaml.Node

/-!
# How scalars are written

A scalar is written in the style it asks for if its text allows that style in its place. A plain
one falls back to single quotes, and whatever fits no other style is double-quoted with escapes.
Lines are never folded.
-/

namespace Provision.Yaml

/-- Whether a character can stand for itself between double quotes. -/
def isPrintable (c : Char) : Bool :=
  let n := c.toNat
  n == 0x0a || (0x20 ≤ n && n ≤ 0x7e) || (0xa0 ≤ n && n ≤ 0xd7ff) ||
    (0xe000 ≤ n && n ≤ 0xfffd && n != 0xfeff) || 0x10000 ≤ n

/-- Whether blanks, a break, the end or the null character come next. -/
def endsToken : Option Char → Bool
  | none => true
  | some c => isBlank c || isBreak c || c == '\x00'

/-- Whether a plain scalar may not begin with a character before `next`. -/
def isFirstIndicator (c : Char) (next : Option Char) : Bool :=
  "#,[]\x7b\x7d&*!|>'\"%@\x60".toList.contains c ||
    ((c == '?' || c == ':' || c == '-') && endsToken next)

/-- Whether an indicator within a text ends a plain scalar, after `before`. -/
def hasInnerIndicator (before : Char) : List Char → Bool
  | [] => false
  | c :: rest =>
    (c == ':' && endsToken rest.head?) || (c == '#' && endsToken (some before)) ||
      hasInnerIndicator c rest

/-- Whether a text holds something that a plain scalar must not. -/
def hasIndicator (text : List Char) : Bool :=
  text.take 3 == ['-', '-', '-'] || text.take 3 == ['.', '.', '.'] ||
    match text with
    | [] => false
    | c :: rest => isFirstIndicator c rest.head? || hasInnerIndicator c rest

/-- Whether two neighbours in a text are like this. -/
def hasPair (p q : Char → Bool) : List Char → Bool
  | a :: b :: rest => (p a && q b) || hasPair p q (b :: rest)
  | _ => false

/-- What the characters of a text allow. -/
structure Allowance where
  multiline : Bool
  plain : Bool
  singleQuoted : Bool
  literal : Bool
deriving DecidableEq, Repr

/-- What a text allows. A space next to a break, or at the end of a block, would be lost. -/
def allowance (text : List Char) : Allowance :=
  let isSpace := (· == ' ')
  let multiline := text.any isBreak
  let special := text.any (!isPrintable ·) || hasPair isSpace isBreak text
  let breakSpace := hasPair isBreak isSpace text
  let edge := (text.head?.any isSpace) || (text.getLast?.any isSpace)
  { multiline
    plain := !text.isEmpty && !multiline && !special && !edge && !hasIndicator text
    singleQuoted := !special && !breakSpace
    literal := !text.isEmpty && !special && !text.getLast?.any isSpace }

/-- The style in which a text is written. A key on one line has no room for a block. -/
def writtenStyle (style : ScalarStyle) (text : List Char) (inKey : Bool) : ScalarStyle :=
  let a := allowance text
  let quoted := if a.singleQuoted then .singleQuoted else .doubleQuoted
  if inKey && a.multiline then .doubleQuoted
  else match style with
    | .plain => if a.plain then .plain else quoted
    | .singleQuoted => quoted
    | .doubleQuoted => .doubleQuoted
    | .literal | .folded => if a.literal && !inKey then .literal else .doubleQuoted

/-- Blanks up to a column. -/
def pad (indent : Nat) : List Char :=
  List.replicate indent ' '

/-! ## Quotes -/

/-- A text within single quotes; lines after a break begin at `indent`. -/
def singleQuotedRest (indent : Nat) : (afterBreak : Bool) → List Char → List Char
  | afterBreak, [] => (if afterBreak then pad indent else []) ++ ['\'']
  | afterBreak, c :: rest =>
    if isBreak c then c :: singleQuotedRest indent true rest
    else
      (if afterBreak then pad indent else []) ++ (if c = '\'' then ['\'', '\''] else [c]) ++
        singleQuotedRest indent false rest

/-- Upper case hexadecimal digits of a fixed width. -/
def hexDigits (width n : Nat) : List Char :=
  let digits := (Nat.toDigits 16 n).map Char.toUpper
  List.replicate (width - digits.length) '0' ++ digits

/-- A character within double quotes. -/
def doubleQuotedChar (c : Char) : List Char :=
  if isPrintable c && !isBreak c && c != '"' && c != '\\' then [c]
  else '\\' ::
    match c with
    | '\x00' => ['0']
    | '\x07' => ['a']
    | '\x08' => ['b']
    | '\t' => ['t']
    | '\n' => ['n']
    | '\x0b' => ['v']
    | '\x0c' => ['f']
    | '\r' => ['r']
    | '\x1b' => ['e']
    | '"' => ['"']
    | '\\' => ['\\']
    | '\u0085' => ['N']
    | '\u2028' => ['L']
    | '\u2029' => ['P']
    | c =>
      if c.toNat < 0x100 then 'x' :: hexDigits 2 c.toNat
      else if c.toNat < 0x10000 then 'u' :: hexDigits 4 c.toNat
      else 'U' :: hexDigits 8 c.toNat

/-! ## Blocks -/

/-- What follows the bar of a block: the indentation where the text does not show it, and whether
its last break is dropped or breaks after it are kept. -/
def blockHints (text : List Char) : List Char :=
  let indentation := if text.head?.any (fun c => c == ' ' || isBreak c) then ['2'] else []
  let chomping := match text.reverse with
    | [] => ['-']
    | [last] => if isBreak last then ['+'] else ['-']
    | last :: before :: _ =>
      if !isBreak last then ['-'] else if isBreak before then ['+'] else []
  indentation ++ chomping

/-- The lines of a block. -/
def blockLines (indent : Nat) : (lineStart : Bool) → List Char → List Char
  | _, [] => []
  | lineStart, c :: rest =>
    if isBreak c then c :: blockLines indent true rest
    else (if lineStart then pad indent else []) ++ c :: blockLines indent false rest

/-- A text in a style; lines of its own begin at `indent`. -/
def styledText (style : ScalarStyle) (indent : Nat) (text : List Char) : List Char :=
  match style with
  | .plain => text
  | .singleQuoted => '\'' :: singleQuotedRest indent false text
  | .doubleQuoted => '"' :: text.flatMap doubleQuotedChar ++ ['"']
  | .literal | .folded => '|' :: blockHints text ++ '\n' :: blockLines indent true text

end Provision.Yaml
