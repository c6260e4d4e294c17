import Provision.Complaint
import Provision.Number.Parse
import Provision.Yaml.Node

/-!
# What a scalar denotes

A plain scalar without a tag is null, a boolean, a number or else a text; quotes and foreign tags
make any scalar a text, and the tags of the basic types demand a scalar of that type. An integer
with needless leading zeros is no number.
-/

namespace Provision.Yaml

/-- Whether a text spells null. -/
def isNull (text : String) : Bool :=
  text = "~" || text = "null" || text = "Null" || text = "NULL"

/-- The boolean a text spells. -/
def bool? (text : String) : Option Bool :=
  if text = "true" || text = "True" || text = "TRUE" then some true
  else if text = "false" || text = "False" || text = "FALSE" then some false
  else none

/-- Whether digits have a zero in front that they do not need. -/
def hasLeadingZero : List Char → Bool
  | '0' :: d :: rest => (d :: rest).all Char.isDigit
  | _ => false

/-- The text without one sign in front. -/
def unsigned : List Char → List Char
  | '-' :: rest => rest
  | '+' :: rest => rest
  | text => text

/-- Whether a text spells no number because of a needless zero. -/
def isPadded (text : List Char) : Bool :=
  hasLeadingZero (unsigned text)

/-- The natural number a text spells in decimal or after `0x`, `0o` or `0b`. -/
def natural? (text : List Char) : Option Nat :=
  let based := match text with
    | '0' :: 'x' :: digits => natOfDigits? 16 digits
    | '0' :: 'o' :: digits => natOfDigits? 8 digits
    | '0' :: 'b' :: digits => natOfDigits? 2 digits
    | _ => none
  based.or (if hasLeadingZero text then none else natOfDigits? 10 text)

/-- The integer a text spells. -/
def integer? : List Char → Option Int
  | '-' :: rest => (natural? rest).map fun n => -(n : Int)
  | '+' :: rest => (natural? rest).map fun n => (n : Int)
  | text => (natural? text).map fun n => (n : Int)

/-- An integer as an atom, if it is not too long for one. -/
def integerAtom? (n : Int) : Option Atom :=
  if -Nat.pow 2 63 ≤ n ∧ n < Nat.pow 2 64 then some (.int n)
  else if -Nat.pow 2 127 ≤ n ∧ n < Nat.pow 2 128 then some (.wideInt n)
  else none

/-- The finite number with this sign that a text without a sign spells. -/
def finite? (negative : Bool) (text : List Char) : Option Double :=
  (Decimal.ofChars? text).bind fun x =>
    let value := Double.ofDecimal negative x
    if value.isFinite then some value else none

/-- The floating point number a text spells. -/
def float? (text : String) : Option Double :=
  if text = ".inf" || text = ".Inf" || text = ".INF" then some (.infinite false)
  else if text = "+.inf" || text = "+.Inf" || text = "+.INF" then some (.infinite false)
  else if text = "-.inf" || text = "-.Inf" || text = "-.INF" then some (.infinite true)
  else if text = ".nan" || text = ".NaN" || text = ".NAN" then some .nan
  else match text.toList with
    | '-' :: rest => finite? true rest
    | '+' :: rest => finite? false rest
    | rest => finite? false rest

/-- What a plain scalar without a tag denotes. -/
def plainAtom (text : String) : Atom :=
  if text = "" || isNull text then .null
  else match bool? text with
    | some b => .bool b
    | none =>
      match (integer? text.toList).bind integerAtom? with
      | some atom => atom
      | none =>
        match if isPadded text.toList then none else float? text with
        | some x => .float x
        | none => .text text

/-- A complaint about a text under the tag of a basic type. -/
def tagComplaint (text : String) (expected : Expected) : Complaint :=
  .wrongValue (.atom (.text text)) expected

/-- What a scalar without a tag denotes. -/
def Scalar.untagged (s : Scalar) : Atom :=
  if s.style = .plain then plainAtom s.text else .text s.text

/-- What a scalar denotes. -/
def Scalar.atom (s : Scalar) : Except Complaint Atom :=
  match s.tag with
  | none => .ok s.untagged
  | some .boolean =>
    match bool? s.text with
    | some b => .ok (.bool b)
    | none => .error (tagComplaint s.text .flag)
  | some .integer =>
    match (integer? s.text.toList).bind integerAtom? with
    | some atom => .ok atom
    | none => .error (tagComplaint s.text .integer)
  | some .float =>
    match float? s.text with
    | some x => .ok (.float x)
    | none => .error (tagComplaint s.text .float)
  | some .null => if isNull s.text then .ok .null else .error (tagComplaint s.text .null)
  | some (.own _) | some .illFormed => .ok s.untagged
  | some .foreign => .ok (.text s.text)

end Provision.Yaml
