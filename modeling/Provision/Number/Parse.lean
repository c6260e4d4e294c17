import Provision.Number.Double

/-!
# Reading numbers

Digits as numbers, and decimals with a point and an exponent, from lists of characters. Every
function takes the whole list or fails.
-/

namespace Provision

/-- The value of a digit, upper and lower case letters being the digits above nine. -/
def digitValue? (base : Nat) (c : Char) : Option Nat :=
  let value :=
    if '0' ≤ c ∧ c ≤ '9' then c.toNat - '0'.toNat
    else if 'a' ≤ c ∧ c ≤ 'z' then c.toNat - 'a'.toNat + 10
    else if 'A' ≤ c ∧ c ≤ 'Z' then c.toNat - 'A'.toNat + 10
    else base
  if value < base then some value else none

/-- The number that digits spell after those of `value`. -/
def digitsAfter? (base : Nat) : (value : Nat) → List Char → Option Nat
  | value, [] => some value
  | value, c :: rest =>
    match digitValue? base c with
    | some digit => digitsAfter? base (value * base + digit) rest
    | none => none

/-- The number that one digit or more spell. -/
def natOfDigits? (base : Nat) : List Char → Option Nat
  | [] => none
  | digits => digitsAfter? base 0 digits

namespace Decimal

/-- The exponent after the digits; none is zero. -/
def exponentOf? : List Char → Option Int
  | [] => some 0
  | 'e' :: rest | 'E' :: rest =>
    match rest with
    | '-' :: digits => (natOfDigits? 10 digits).map fun n => -(n : Int)
    | '+' :: digits => (natOfDigits? 10 digits).map fun n => (n : Int)
    | digits => (natOfDigits? 10 digits).map fun n => (n : Int)
  | _ => none

/-- The decimal of a text such as `12.50`, `1.`, `.5` or `1e-3`, without a sign. -/
def ofChars? (text : List Char) : Option Decimal := do
  let whole := text.takeWhile Char.isDigit
  let rest := text.dropWhile Char.isDigit
  let (fraction, rest) := match rest with
    | '.' :: rest => (rest.takeWhile Char.isDigit, rest.dropWhile Char.isDigit)
    | rest => ([], rest)
  let digits ← natOfDigits? 10 (whole ++ fraction)
  let exponent ← exponentOf? rest
  return ⟨digits, exponent - fraction.length⟩

end Decimal

end Provision
