import Provision.Number.Shortest

/-!
# Number texts

How a double is written: its shortest digits, placed by a `NumberFormat`. The formats of the
documents, of the plain rendering and of the messages are values of that one record, and the
integers are written in decimal without padding.
-/

namespace Provision

/-- How shortest digits become text. With `d.ddd * 10 ^ e` the value is positional while
`least ≤ e ≤ most`, and has an exponent outside of that. -/
structure NumberFormat where
  /-- The range of exponents written positionally; none for all of them. -/
  positional : Option (Int × Int)
  /-- Whether an integral value is written with `.0`. -/
  pointZero : Bool
  /-- Whether a positive exponent has a plus sign. -/
  plus : Bool
  /-- What happens half way between two shortest candidates. -/
  tie : Tie
  nan : String
  infinity : String

namespace NumberFormat

/-- Numbers in settings documents: `1.0`, `0.00001`, `1e-7`, `1e21`, `.inf`. -/
def document : NumberFormat where
  positional := some (-5, 15)
  pointZero := true
  plus := false
  tie := .toEven
  nan := ".nan"
  infinity := ".inf"

/-- Numbers in plans printed as JSON, and in complaints about JSON documents: `1e+21`. -/
def json : NumberFormat := { document with plus := true }

/-- The value of a bare number in a text field: always positional, `1` for one. -/
def plain : NumberFormat where
  positional := none
  pointZero := false
  plus := false
  tie := .up
  nan := "NaN"
  infinity := "inf"

/-- Numbers in complaints about YAML documents: positional, and never without a point. -/
def complaint : NumberFormat := { plain with pointZero := true }

end NumberFormat

namespace Decimal

/-- The exponent of the first digit. -/
def leading (x : Decimal) : Int := x.exponent + (Nat.toDigits 10 x.digits).length - 1

/-- Digits with the point where it stands, without an exponent. -/
def positionalText (x : Decimal) (pointZero : Bool) : List Char :=
  let digits := Nat.toDigits 10 x.digits
  let tail := if pointZero then ['.', '0'] else []
  if 0 ≤ x.exponent then digits ++ List.replicate x.exponent.toNat '0' ++ tail
  else
    let fraction := (-x.exponent).toNat
    if fraction < digits.length then
      digits.take (digits.length - fraction) ++ '.' :: digits.drop (digits.length - fraction)
    else '0' :: '.' :: List.replicate (fraction - digits.length) '0' ++ digits

/-- One digit, the others after the point, and the exponent. -/
def exponentText (x : Decimal) (plus : Bool) : List Char :=
  let mantissa := match Nat.toDigits 10 x.digits with
    | d :: e :: more => d :: '.' :: e :: more
    | short => short
  let sign := if x.leading < 0 then ['-'] else if plus then ['+'] else []
  mantissa ++ 'e' :: sign ++ Nat.toDigits 10 x.leading.natAbs

/-- The text of a decimal under a format. -/
def text (x : Decimal) (format : NumberFormat) : List Char :=
  match format.positional with
  | none => x.positionalText format.pointZero
  | some (least, most) =>
    if least ≤ x.leading ∧ x.leading ≤ most then x.positionalText format.pointZero
    else x.exponentText format.plus

end Decimal

namespace Double

/-- The text of a double under a format. -/
def text (x : Double) (format : NumberFormat) : String :=
  match x with
  | .nan => format.nan
  | .infinite negative => (if negative then "-" else "") ++ format.infinity
  | .finite negative m =>
    let digits := (m.shortest format.tie).text format
    String.ofList (if negative then '-' :: digits else digits)

end Double

end Provision
