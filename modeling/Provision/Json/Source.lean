import Provision.Number.Parse
import Provision.Text.Size
import Provision.Value

/-!
# JSON documents as they are spelled

Reading a JSON document never fails as a whole: where the text breaks the grammar the tree ends in
a `cut`, and a text or number that cannot be represented stays in its place as such. Those are
faults only for a reader that gets to them and wants their value, so the first thing wrong in
document order can be told from the tree.
-/

namespace Provision.Json

/-- How a text breaks the grammar: by what is in it, or by ending too early. -/
inductive Break
  | malformed
  | endOfInput
deriving DecidableEq, Repr

/-- A document as it is spelled. -/
inductive Source
  | null
  | bool (b : Bool)
  /-- A number; none when it is beyond the range of numbers. -/
  | number (value : Option Atom)
  /-- A text, unless its escapes spell none. -/
  | text (spelled : Except Break String)
  | list (items : List Source)
  | table (entries : List (Except Break String × Source))
  /-- Where the text breaks the grammar, for one who reads a value here and for one who skips it;
  within a list also whether a comma stands in front. -/
  | cut (read skipped : Break) (afterComma : Bool)

/-! ## Words and blanks -/

/-- Past the blanks. -/
def skipBlanks (chars : List Char) : List Char :=
  chars.dropWhile fun c => c == ' ' || c == '\n' || c == '\t' || c == '\r'

/-- What is wrong when something else is expected at this point. -/
def breakAt : List Char → Break
  | [] => .endOfInput
  | _ :: _ => .malformed

/-- A value that could not be read, and nothing after it. -/
abbrev Outcome := Source × Option (List Char)

/-- A cut at a point where something else is expected. -/
def cutAt (chars : List Char) (afterComma : Bool) : Source :=
  .cut (breakAt chars) (breakAt chars) afterComma

/-- Reads the rest of a word. -/
def word (value : Source) : (word chars : List Char) → Outcome
  | [], rest => (value, some rest)
  | expected :: more, c :: rest =>
    if c = expected then word value more rest else (.cut .malformed .malformed false, none)
  | _ :: _, [] => (.cut .endOfInput .endOfInput false, none)

/-! ## Numbers -/

/-- A number with a sign. -/
def signed (negative : Bool) (m : Magnitude) : Atom :=
  .float (.finite negative m)

/-- `significand * 10 ^ exponent`, computed with a correctly rounded power of ten in one
multiplication or division, or several divisions when the exponent is very small. -/
def scaled? (significand : Nat) (exponent : Int) : Option Magnitude := do
  let m ← Magnitude.ofRatio? significand 1
  if 0 ≤ exponent then
    if 308 < exponent then if significand = 0 then return m else none
    else m.mul? (← Magnitude.ofDecimal? ⟨1, exponent⟩)
  else if -308 ≤ exponent then m.div? (← Magnitude.ofDecimal? ⟨1, -exponent⟩)
  else
    let largest ← Magnitude.ofDecimal? ⟨1, 308⟩
    let m ← m.div? largest
    if -616 ≤ exponent then m.div? (← Magnitude.ofDecimal? ⟨1, -exponent - 308⟩)
    else return .zero

/-- The digits of a number from its front: the leading ones that fit 64 bits as a number, and how
many follow those. -/
def significand : (value : Nat) → List Char → Nat × Nat
  | value, [] => (value, 0)
  | value, c :: rest =>
    let next := value * 10 + (c.toNat - '0'.toNat)
    if next < Nat.pow 2 64 then significand next rest else (value, (c :: rest).length)

/-- The number with these digits before and after the point and this exponent. Digits beyond 64
bits count as zeros. -/
def number (negative : Bool) (whole : List Char) (fraction : Option (List Char))
    (exponent : Option Int) : Option Atom :=
  let (value, dropped) := significand 0 whole
  match fraction, exponent, dropped with
  | none, none, 0 =>
    if !negative then some (.int value)
    else if 0 < value ∧ value ≤ Nat.pow 2 63 then some (.int (-value))
    else (Magnitude.ofRatio? value 1).map (signed true)
  | _, _, _ =>
    let fraction := fraction.getD []
    let (value, left) := significand value fraction
    let places : Int := dropped - (fraction.length - left : Nat)
    (scaled? value (places + exponent.getD 0)).map (signed negative)

/-- A cut in a number, where a digit is expected. -/
def missingDigit (chars : List Char) : Outcome :=
  (.cut (breakAt chars) .malformed false, none)

/-- Reads the exponent of a number and finishes it. -/
def exponentPart (negative : Bool) (whole : List Char) (fraction : Option (List Char)) :
    List Char → Outcome
  | 'e' :: rest | 'E' :: rest =>
    let (down, rest) := match rest with
      | '-' :: rest => (true, rest)
      | '+' :: rest => (false, rest)
      | rest => (false, rest)
    let digits := rest.takeWhile Char.isDigit
    match natOfDigits? 10 digits with
    | none => missingDigit rest
    | some n =>
      let exponent : Int := if down then -n else n
      (.number (number negative whole fraction (some exponent)), some (rest.dropWhile Char.isDigit))
  | rest => (.number (number negative whole fraction none), some rest)

/-- Reads the fraction of a number and what follows it. -/
def fractionPart (negative : Bool) (whole : List Char) : List Char → Outcome
  | '.' :: rest =>
    let digits := rest.takeWhile Char.isDigit
    if digits.isEmpty then missingDigit rest
    else exponentPart negative whole (some digits) (rest.dropWhile Char.isDigit)
  | rest => exponentPart negative whole none rest

/-- Reads a number after its sign. -/
def numberPart (negative : Bool) : List Char → Outcome
  | '0' :: rest =>
    if rest.head?.any Char.isDigit then (.cut .malformed .malformed false, none)
    else fractionPart negative ['0'] rest
  | chars =>
    let digits := chars.takeWhile Char.isDigit
    if digits.isEmpty then missingDigit chars
    else fractionPart negative digits (chars.dropWhile Char.isDigit)

/-! ## Texts -/

/-- The value of four hexadecimal digits in front of a text, and what follows them. -/
def fourHex? : List Char → Option (Nat × List Char)
  | a :: b :: c :: d :: rest => (natOfHex [a, b, c, d]).map (·, rest)
  | _ => none
where
  natOfHex (digits : List Char) : Option Nat := natOfDigits? 16 digits

/-- What is wrong where four hexadecimal digits are expected. -/
def hexBreak (chars : List Char) : Break :=
  if Text.size (chars.take 4) < 4 then .endOfInput else .malformed

/-- The character of a one-letter escape. -/
def escaped? : Char → Option Char
  | '"' => some '"'
  | '\\' => some '\\'
  | '/' => some '/'
  | 'b' => some '\x08'
  | 'f' => some '\x0c'
  | 'n' => some '\n'
  | 'r' => some '\r'
  | 't' => some '\t'
  | _ => none

def isHighSurrogate (n : Nat) : Bool := 0xd800 ≤ n && n < 0xdc00

def isLowSurrogate (n : Nat) : Bool := 0xdc00 ≤ n && n < 0xe000

/-- What a code unit escape spells, and what follows it. A high surrogate needs a low one after
it, and spells nothing without it. -/
def codeUnit (unit : Nat) (rest : List Char) : Except Break Char × List Char :=
  if isHighSurrogate unit then
    match rest with
    | '\\' :: 'u' :: more =>
      match fourHex? more with
      | some (low, rest') =>
        if isLowSurrogate low then
          (.ok (Char.ofNat (0x10000 + (unit - 0xd800) * 0x400 + (low - 0xdc00))), rest')
        else (.error .malformed, rest)
      | none => (.error (hexBreak more), rest)
    | [] | ['\\'] => (.error .endOfInput, rest)
    | _ => (.error .malformed, rest)
  else if isLowSurrogate unit then (.error .malformed, rest)
  else (.ok (Char.ofNat unit), rest)

/-- Reads a text after its quote: what it spells, and what follows it unless the grammar is broken
within it. `spelled` holds the characters before, last one first. -/
def unquoteBy : (fuel : Nat) → (spelled : Except Break (List Char)) → List Char →
    Except Break String × Except Break (List Char)
  | 0, _, _ => (.error .endOfInput, .error .endOfInput)
  | fuel + 1, spelled, chars =>
    let broken (cause : Break) :=
      match spelled with
      | .ok _ => (.error cause, .error cause)
      | .error first => (.error first, .error cause)
    let add (c : Char) := spelled.map (c :: ·)
    match chars with
    | [] => broken .endOfInput
    | '"' :: rest => (spelled.map fun cs => String.ofList cs.reverse, .ok rest)
    | '\\' :: 'u' :: rest =>
      match fourHex? rest with
      | none => broken (hexBreak rest)
      | some (unit, rest) =>
        match codeUnit unit rest, spelled with
        | (.ok c, rest), _ => unquoteBy fuel (add c) rest
        | (.error cause, rest), .ok _ => unquoteBy fuel (.error cause) rest
        | (.error _, rest), .error first => unquoteBy fuel (.error first) rest
    | '\\' :: c :: rest =>
      match escaped? c with
      | some c => unquoteBy fuel (add c) rest
      | none => broken .malformed
    | ['\\'] => broken .endOfInput
    | c :: rest => if c.toNat < 0x20 then broken .malformed else unquoteBy fuel (add c) rest

/-- Reads a text after its quote. The fuel is more than the characters left. -/
def unquote (fuel : Nat) (chars : List Char) : Except Break String × Except Break (List Char) :=
  unquoteBy fuel (.ok []) chars

/-! ## Values -/

/-- Reads the items of a list by `value`, after its bracket or an item. The fuel is more than the
characters left. -/
def itemsBy (value : List Char → Outcome) : (fuel : Nat) → (first : Bool) → List Char →
    List Source × Option (List Char)
  | 0, _, _ => ([], none)
  | fuel + 1, first, chars =>
    match skipBlanks chars with
    | ']' :: rest => ([], some rest)
    | chars =>
      let next := if first then some chars else match chars with
        | ',' :: rest => some (skipBlanks rest)
        | _ => none
      match next with
      | none => ([cutAt chars false], none)
      | some [] => ([cutAt [] (!first)], none)
      | some (']' :: _) => ([.cut .malformed .malformed true], none)
      | some chars =>
        match value chars with
        | (.cut read skipped _, _) => ([.cut read skipped (!first)], none)
        | (item, none) => ([item], none)
        | (item, some rest) =>
          let (items, rest) := itemsBy value fuel false rest
          (item :: items, rest)

/-- Reads the entries of a table by `value`, after its brace or an entry. The fuel is more than the
characters left. -/
def entriesBy (value : List Char → Outcome) : (fuel : Nat) → (first : Bool) → List Char →
    List (Except Break String × Source) × Option (List Char)
  | 0, _, _ => ([], none)
  | fuel + 1, first, chars =>
    let stop (read skipped : Break) := ([(Except.error read, Source.cut read skipped false)], none)
    match skipBlanks chars with
    | '}' :: rest => ([], some rest)
    | chars =>
      let next := if first then some chars else match chars with
        | ',' :: rest => some (skipBlanks rest)
        | _ => none
      match next with
      | none => stop (breakAt chars) (breakAt chars)
      | some ('"' :: rest) =>
        match unquote (fuel + 1) rest with
        | (.error read, .error skipped) => stop read skipped
        | (.ok _, .error skipped) => stop skipped skipped
        | (key, .ok rest) =>
          match skipBlanks rest with
          | ':' :: rest =>
            match value (skipBlanks rest) with
            | (item, none) => ([(key, item)], none)
            | (item, some rest) =>
              let (entries, rest) := entriesBy value fuel false rest
              ((key, item) :: entries, rest)
          | rest => ([(key, cutAt rest false)], none)
      | some chars => stop (breakAt chars) (breakAt chars)

/-- Reads a value whose first character comes next. The fuel is more than the characters left:
every value is longer than its parts, and every part takes a character. -/
def value : (fuel : Nat) → List Char → Outcome
  | 0, _ => (.cut .endOfInput .endOfInput false, none)
  | fuel + 1, chars =>
    match chars with
    | [] => (cutAt [] false, none)
    | 'n' :: rest => word .null ['u', 'l', 'l'] rest
    | 't' :: rest => word (.bool true) ['r', 'u', 'e'] rest
    | 'f' :: rest => word (.bool false) ['a', 'l', 's', 'e'] rest
    | '-' :: rest => numberPart true rest
    | '"' :: rest =>
      match unquote (fuel + 1) rest with
      | (.error read, .error skipped) => (.cut read skipped false, none)
      | (.ok _, .error skipped) => (.cut skipped skipped false, none)
      | (spelled, .ok rest) => (.text spelled, some rest)
    | '[' :: rest =>
      let (items, rest) := itemsBy (value fuel) fuel true rest
      (.list items, rest)
    | '{' :: rest =>
      let (entries, rest) := entriesBy (value fuel) fuel true rest
      (.table entries, rest)
    | c :: _ => if c.isDigit then numberPart false chars else (.cut .malformed .malformed false, none)

/-- A whole document. -/
structure Document where
  root : Source
  /-- Whether something other than blanks follows the root. -/
  hasMore : Bool

/-- The document a text spells. -/
def Document.ofText (text : String) : Document :=
  let chars := skipBlanks text.toList
  match value (chars.length + 1) chars with
  | (root, some rest) => ⟨root, !(skipBlanks rest).isEmpty⟩
  | (root, none) => ⟨root, false⟩

end Provision.Json
