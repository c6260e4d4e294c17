/-!
# Binary64 numbers as data

A finite double is `± significand * 2 ^ scale` units of `2 ^ -1074`, kept in its one canonical
form, so that two finite doubles are equal exactly when sign and value are. Rounding a quotient of
naturals to the nearest double, ties to even, is the only operation that loses anything; reading a
decimal, multiplying and dividing are all that operation at an exact quotient.
-/

namespace Provision

/-- A finite magnitude `significand * 2 ^ scale / 2 ^ 1074` in canonical form: below the first
binade the scale is zero, above it the significand has all 53 bits. -/
structure Magnitude where
  significand : Nat
  scale : Nat
  significand_lt : significand < Nat.pow 2 53
  scale_le : scale ≤ 2045
  normal : Nat.pow 2 52 ≤ significand ∨ scale = 0
deriving DecidableEq

/-- A binary64 value. Zero keeps its sign, and all the encodings of not-a-number are one value. -/
inductive Double
  | nan
  | infinite (negative : Bool)
  | finite (negative : Bool) (magnitude : Magnitude)
deriving DecidableEq

/-- A decimal number `digits * 10 ^ exponent`. -/
structure Decimal where
  digits : Nat
  exponent : Int
deriving DecidableEq, Repr

/-- The natural number nearest to `n / d`, a tie going to the even one. -/
def divNearestEven (n d : Nat) : Nat :=
  if 2 * (n % d) < d then n / d
  else if d < 2 * (n % d) then n / d + 1
  else n / d + n / d % 2

namespace Magnitude

/-- The magnitude of both zeros. -/
def zero : Magnitude := ⟨0, 0, by decide, by decide, .inr rfl⟩

/-- The value counted in units of `2 ^ -1074`, the gap between the smallest doubles. -/
def units (m : Magnitude) : Nat := m.significand * Nat.pow 2 m.scale

/-- The magnitude with this significand and scale, if the pair is canonical. -/
def make? (significand scale : Nat) : Option Magnitude :=
  if h : significand < Nat.pow 2 53 ∧ scale ≤ 2045 ∧ (Nat.pow 2 52 ≤ significand ∨ scale = 0) then
    some ⟨significand, scale, h.1, h.2.1, h.2.2⟩
  else none

/-- The magnitude nearest to `n / d`, ties to even; none when that lies beyond the largest one.
The scale leaves 53 bits of the quotient, and rounding up to `2 ^ 53` moves on to the next scale. -/
def ofRatio? (n d : Nat) : Option Magnitude :=
  let units := n * Nat.pow 2 1074
  let scale := Nat.log2 (units / d) + 1 - 53
  let significand := divNearestEven units (d * Nat.pow 2 scale)
  if significand = Nat.pow 2 53 then make? (Nat.pow 2 52) (scale + 1) else make? significand scale

/-- The magnitude nearest to a decimal. Exponents far outside the range of doubles are answered
without computing their powers of ten. -/
def ofDecimal? (x : Decimal) : Option Magnitude :=
  if x.digits = 0 then some zero
  else if 400 < x.exponent then none
  else if x.exponent + (Nat.log2 x.digits / 3 + 2 : Nat) < -400 then some zero
  else if 0 ≤ x.exponent then ofRatio? (x.digits * Nat.pow 10 x.exponent.toNat) 1
  else ofRatio? x.digits (Nat.pow 10 (-x.exponent).toNat)

/-- The product, rounded; none when it overflows. -/
def mul? (a b : Magnitude) : Option Magnitude :=
  ofRatio? (a.units * b.units) (Nat.pow 2 1074 * Nat.pow 2 1074)

/-- The quotient, rounded; none when it overflows. -/
def div? (a b : Magnitude) : Option Magnitude :=
  ofRatio? a.units b.units

theorem make?_canonical (m : Magnitude) : make? m.significand m.scale = some m := by
  unfold make?
  exact dif_pos ⟨m.significand_lt, m.scale_le, m.normal⟩

end Magnitude

namespace Double

/-- The double nearest to a signed decimal; one too large becomes infinite. -/
def ofDecimal (negative : Bool) (x : Decimal) : Double :=
  match Magnitude.ofDecimal? x with
  | some m => .finite negative m
  | none => .infinite negative

/-- Whether this is neither infinite nor not-a-number. -/
def isFinite : Double → Bool
  | .finite _ _ => true
  | _ => false

/-- Equality of keys: zeros of either sign are the same, and not-a-number is the same as itself. -/
def sameKey : Double → Double → Bool
  | .finite s a, .finite t b => a = b && (s = t || a.significand = 0)
  | a, b => a = b

end Double

end Provision
