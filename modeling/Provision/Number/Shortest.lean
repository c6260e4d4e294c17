import Provision.Number.Double

/-!
# The fewest digits that read back

A finite double is written with as few decimal digits as still denote it, and of those with the
digits nearest to its exact value. The search tries one to seventeen digits and takes the two
decimal neighbours of the value on each grid; a neighbour counts only when reading it gives the
value back, so what `shortest` returns reads back by construction.
-/

namespace Provision

/-- Where a value half way between two candidates goes. -/
inductive Tie
  | toEven
  | up
deriving DecidableEq

namespace Decimal

/-- The same number without trailing zeros in its digits, `fuel` of them at most. -/
def trimmed : (fuel : Nat) → Decimal → Decimal
  | 0, x => x
  | fuel + 1, x =>
    if x.digits ≠ 0 ∧ x.digits % 10 = 0 then trimmed fuel ⟨x.digits / 10, x.exponent + 1⟩ else x

end Decimal

namespace Magnitude

/-- The value over `10 ^ e`, as numerator and denominator. -/
def ratioOver (m : Magnitude) (e : Int) : Nat × Nat :=
  if 0 ≤ e then (m.units, Nat.pow 2 1074 * Nat.pow 10 e.toNat)
  else (m.units * Nat.pow 10 (-e).toNat, Nat.pow 2 1074)

/-- Whether the value is at least `10 ^ e`. -/
def atLeastPowerOfTen (m : Magnitude) (e : Int) : Bool :=
  let (n, d) := m.ratioOver e
  d ≤ n

/-- The `k` with `10 ^ (k - 1) ≤ value < 10 ^ k`, for a value other than zero. The binary
logarithm gives `k` up to one, and comparison settles the rest. -/
def magnitudeOfTen (m : Magnitude) : Int :=
  let guess := (((Nat.log2 m.units : Int) - 1074) * 30103).fdiv 100000
  if m.atLeastPowerOfTen (guess + 1) then guess + 2
  else if m.atLeastPowerOfTen guess then guess + 1
  else guess

/-- Whether a decimal denotes this magnitude. -/
def denotedBy (m : Magnitude) (x : Decimal) : Bool :=
  ofDecimal? x = some m

/-- The neighbour of the value on the grid `10 ^ e` that denotes it; of two, the nearer one. -/
def onGrid? (m : Magnitude) (tie : Tie) (e : Int) : Option Decimal :=
  let (n, d) := m.ratioOver e
  let below : Decimal := ⟨n / d, e⟩
  let above : Decimal := ⟨n / d + 1, e⟩
  match m.denotedBy below, m.denotedBy above with
  | true, false => some below
  | false, true => some above
  | false, false => none
  | true, true =>
    let twice := 2 * (n % d)
    if twice < d then some below
    else if d < twice then some above
    else match tie with
      | .up => some above
      | .toEven => some (if n / d % 2 = 0 then below else above)

/-- The exact decimal expansion: a unit is `5 ^ 1074 * 10 ^ -1074`. -/
def exact (m : Magnitude) : Decimal :=
  ⟨m.units * Nat.pow 5 1074, -1074⟩

/-- The first of the grids with `n`, `n + 1`, … digits that holds a decimal denoting the value. -/
def firstGrid (m : Magnitude) (tie : Tie) (top : Int) : (count n : Nat) → Decimal
  | 0, _ => m.exact
  | count + 1, n =>
    match m.onGrid? tie (top - n) with
    | some x => x
    | none => firstGrid m tie top count (n + 1)

/-- The shortest decimal that denotes this magnitude, nearest to it among the shortest. -/
def shortest (m : Magnitude) (tie : Tie) : Decimal :=
  if m.significand = 0 then ⟨0, 0⟩
  else (m.firstGrid tie m.magnitudeOfTen 17 1).trimmed 20

end Magnitude

end Provision
