import Mathlib.Tactic.Linarith
import Mathlib.Tactic.NormNum
import Mathlib.Tactic.Ring
import Provision.Number.Shortest

/-!
# Rounding decimals to doubles

Rounding depends on the value of a quotient alone (`ofRatio?_congr`), and a magnitude is the
rounding of its own value (`ofRatio?_units`). The answers that `ofDecimal?` gives without computing
a power of ten are the ones rounding would give, so a decimal may be written with any exponent
(`ofDecimal?_congr`). Hence the shortest digits of a magnitude denote it (`ofDecimal?_shortest`).
-/

namespace Provision

/-- The definitions spell powers by the function behind `^`. -/
theorem natPow_eq (a n : ℕ) : Nat.pow a n = a ^ n := rfl

/-! ## Quotients -/

/-- Scaling numerator and denominator leaves the nearest integer as it is. -/
theorem divNearestEven_mul_right (n d : ℕ) {k : ℕ} (hk : 0 < k) :
    divNearestEven (n * k) (d * k) = divNearestEven n d := by
  have hdiv : n * k / (d * k) = n / d := Nat.mul_div_mul_right n d hk
  have hmod : n * k % (d * k) = n % d * k := Nat.mul_mod_mul_right k n d
  unfold divNearestEven
  rw [hdiv, hmod, ← mul_assoc]
  simp only [Nat.mul_lt_mul_right hk]

/-- A whole quotient is its own nearest integer. -/
theorem divNearestEven_mul_self (q : ℕ) {d : ℕ} (hd : 0 < d) : divNearestEven (q * d) d = q := by
  unfold divNearestEven
  rw [Nat.mul_mod_left, Nat.mul_div_cancel q hd]
  simp [hd]

/-- Less than a half rounds to zero. -/
theorem divNearestEven_eq_zero {n d : ℕ} (h : 2 * n < d) : divNearestEven n d = 0 := by
  have hlt : n < d := by omega
  unfold divNearestEven
  rw [Nat.mod_eq_of_lt hlt, Nat.div_eq_of_lt hlt, if_pos h]

namespace Magnitude

/-- No magnitude has a scale beyond that of the largest double. -/
theorem make?_eq_none {significand scale : ℕ} (h : 2045 < scale) :
    make? significand scale = none := by
  unfold make?
  exact dif_neg fun hc => by omega

/-- The rounding of a quotient does not see a common factor. -/
theorem ofRatio?_mul_right (n d : ℕ) {k : ℕ} (hk : 0 < k) :
    ofRatio? (n * k) (d * k) = ofRatio? n d := by
  unfold ofRatio?
  generalize Nat.pow 2 1074 = unit
  -- the factor cancels in the quotient that picks the scale and in the one that is rounded
  have hunits : n * k * unit = n * unit * k := Nat.mul_right_comm n k unit
  have hquotient : n * unit * k / (d * k) = n * unit / d := Nat.mul_div_mul_right _ _ hk
  simp only [hunits, hquotient]
  have hscaled : ∀ s, d * k * s = d * s * k := fun s => Nat.mul_right_comm d k s
  simp only [hscaled, divNearestEven_mul_right _ _ hk]

/-- Equal quotients round to the same magnitude. -/
theorem ofRatio?_congr {n d n' d' : ℕ} (hd : 0 < d) (hd' : 0 < d') (h : n * d' = n' * d) :
    ofRatio? n d = ofRatio? n' d' := by
  calc ofRatio? n d = ofRatio? (n * d') (d * d') := (ofRatio?_mul_right n d hd').symm
    _ = ofRatio? (n' * d) (d' * d) := by rw [h, mul_comm d d']
    _ = ofRatio? n' d' := ofRatio?_mul_right n' d' hd

/-- The binary logarithm of a magnitude's units tells its scale. -/
theorem log2_units (m : Magnitude) : Nat.log2 m.units + 1 - 53 = m.scale := by
  have hlt : m.significand < 2 ^ 53 := m.significand_lt
  have hunits : m.units = m.significand * 2 ^ m.scale := rfl
  -- the significand has all its 53 bits, unless the scale is the smallest one
  rcases m.normal with hnormal | hzero
  · have hle : 2 ^ 52 ≤ m.significand := hnormal
    have hne : m.units ≠ 0 := by
      rw [hunits]
      exact Nat.mul_ne_zero (by omega) (by positivity)
    have hlow : 52 + m.scale ≤ Nat.log2 m.units := by
      rw [Nat.le_log2 hne, hunits, pow_add]
      exact Nat.mul_le_mul_right _ hle
    have hhigh : Nat.log2 m.units < 53 + m.scale := by
      rw [Nat.log2_lt hne, hunits, pow_add]
      exact Nat.mul_lt_mul_of_pos_right hlt (by positivity)
    omega
  · rw [hzero, pow_zero, mul_one] at hunits
    by_cases hne : m.units = 0
    · rw [hne, hzero]
      rfl
    · have hhigh : Nat.log2 m.units < 53 := by
        rw [Nat.log2_lt hne, hunits]
        exact hlt
      omega

/-- A magnitude is the rounding of its own value. -/
theorem ofRatio?_units (m : Magnitude) : ofRatio? m.units (Nat.pow 2 1074) = some m := by
  have hunit : 0 < Nat.pow 2 1074 := by
    simp only [natPow_eq]
    positivity
  unfold ofRatio?
  generalize Nat.pow 2 1074 = unit at *
  simp only [Nat.mul_div_cancel _ hunit, log2_units]
  -- with the scale of the magnitude the division leaves no rest
  have hscaled : 0 < unit * Nat.pow 2 m.scale := Nat.mul_pos hunit (Nat.pow_pos (by omega))
  have hexact : divNearestEven (m.units * unit) (unit * Nat.pow 2 m.scale) = m.significand := by
    have hunits : m.units * unit = m.significand * (unit * Nat.pow 2 m.scale) := by
      unfold units
      ring
    rw [hunits, divNearestEven_mul_self _ hscaled]
  have hne : m.significand ≠ Nat.pow 2 53 := Nat.ne_of_lt m.significand_lt
  rw [hexact, if_neg hne, make?_canonical]

/-- A quotient of `2 ^ 1024` or more is beyond the largest magnitude. -/
theorem ofRatio?_eq_none {n d : ℕ} (hd : 0 < d) (h : d * 2 ^ 1024 ≤ n) : ofRatio? n d = none := by
  unfold ofRatio?
  simp only [natPow_eq]
  have hquotient : 2 ^ 2098 ≤ n * 2 ^ 1074 / d := by
    rw [Nat.le_div_iff_mul_le hd]
    calc 2 ^ 2098 * d = d * 2 ^ 1024 * 2 ^ 1074 := by
          rw [show (2098 : ℕ) = 1024 + 1074 from rfl, pow_add]
          ring
      _ ≤ n * 2 ^ 1074 := Nat.mul_le_mul_right _ h
  have hscale : ∀ q, 2 ^ 2098 ≤ q → 2045 < Nat.log2 q + 1 - 53 := fun q hq => by
    have hne : q ≠ 0 := (Nat.lt_of_lt_of_le (by positivity) hq).ne'
    have hlog : 2098 ≤ Nat.log2 q := (Nat.le_log2 hne).mpr hq
    omega
  -- both branches ask for a scale beyond 2045
  simp only [make?_eq_none (hscale _ hquotient),
    make?_eq_none (Nat.lt_succ_of_lt (hscale _ hquotient)), ite_self]

/-- A quotient below half of the smallest magnitude is zero. -/
theorem ofRatio?_eq_zero {n d : ℕ} (h : 2 * (n * 2 ^ 1074) < d) : ofRatio? n d = some zero := by
  have hquotient : n * 2 ^ 1074 / d = 0 := Nat.div_eq_of_lt (by omega)
  have hscale : Nat.log2 0 + 1 - 53 = 0 := by decide
  unfold ofRatio?
  simp only [natPow_eq, hquotient, hscale, pow_zero, mul_one, divNearestEven_eq_zero h]
  rfl

end Magnitude

/-! ## Decimals -/

namespace Decimal

/-- The numerator of a decimal's value. -/
def numerator (x : Decimal) : ℕ := x.digits * 10 ^ x.exponent.toNat

/-- The denominator of a decimal's value. -/
def denominator (x : Decimal) : ℕ := 10 ^ (-x.exponent).toNat

theorem denominator_pos (x : Decimal) : 0 < x.denominator := by
  unfold denominator
  positivity

/-- Whether two decimals have the same value. -/
def SameValue (x y : Decimal) : Prop :=
  x.numerator * y.denominator = y.numerator * x.denominator

/-- Powers of ten move between the digits and the exponent. -/
theorem sameValue_shift (d k : ℕ) (e : ℤ) : SameValue ⟨d * 10 ^ k, e⟩ ⟨d, e + k⟩ := by
  have hexponents : k + e.toNat + (-(e + k)).toNat = (e + k).toNat + (-e).toNat := by omega
  unfold SameValue numerator denominator
  dsimp only
  -- both sides are the digits times one power of ten
  calc d * 10 ^ k * 10 ^ e.toNat * 10 ^ (-(e + k)).toNat
      = d * 10 ^ (k + e.toNat + (-(e + k)).toNat) := by rw [pow_add, pow_add]; ring
    _ = d * 10 ^ (e + k).toNat * 10 ^ (-e).toNat := by rw [hexponents, pow_add]; ring

/-- Digits are fewer than a third of their binary logarithm says, for `2 ^ 3 < 10`. -/
theorem digits_lt_pow (d : ℕ) : d < 10 ^ (Nat.log2 d / 3 + 1) := by
  calc d < 2 ^ (Nat.log2 d + 1) := Nat.lt_log2_self
    _ ≤ 2 ^ (3 * (Nat.log2 d / 3 + 1)) := Nat.pow_le_pow_right (by omega) (by omega)
    _ = 8 ^ (Nat.log2 d / 3 + 1) := by rw [pow_mul]; norm_num
    _ ≤ 10 ^ (Nat.log2 d / 3 + 1) := Nat.pow_le_pow_left (by omega) _

end Decimal

namespace Magnitude

/-- A decimal with more than 400 zeros at its end is beyond the largest magnitude. -/
theorem ofRatio?_huge {x : Decimal} (hdigits : x.digits ≠ 0) (h : 400 < x.exponent) :
    ofRatio? x.numerator x.denominator = none := by
  have hdenominator : x.denominator = 1 := by
    unfold Decimal.denominator
    rw [show (-x.exponent).toNat = 0 by omega, pow_zero]
  have hlargest : 1 * 2 ^ 1024 ≤ 10 ^ 401 := by decide +kernel
  have hpow : 10 ^ 401 ≤ 10 ^ x.exponent.toNat :=
    pow_le_pow_right₀ (by omega) (by omega)
  have hnumerator : 10 ^ x.exponent.toNat ≤ x.numerator :=
    Nat.le_mul_of_pos_left _ (Nat.pos_of_ne_zero hdigits)
  rw [hdenominator]
  exact ofRatio?_eq_none one_pos (hlargest.trans (hpow.trans hnumerator))

/-- A decimal with more than 400 zeros after its point is zero. -/
theorem ofRatio?_tiny {x : Decimal}
    (h : x.exponent + (Nat.log2 x.digits / 3 + 2 : ℕ) < -400) :
    ofRatio? x.numerator x.denominator = some zero := by
  have hnumerator : x.numerator = x.digits := by
    unfold Decimal.numerator
    rw [show x.exponent.toNat = 0 by omega, pow_zero, mul_one]
  have hdigits := Decimal.digits_lt_pow x.digits
  -- the digits are below one power of ten, and `2 ^ 1075` below another
  have hscaled : ∀ unit, 2 * unit ≤ 10 ^ 324 → 2 * (x.digits * unit) < x.denominator := by
    intro unit hunit
    unfold Decimal.denominator
    calc 2 * (x.digits * unit) = x.digits * (2 * unit) := by ring
      _ ≤ x.digits * 10 ^ 324 := Nat.mul_le_mul_left _ hunit
      _ < 10 ^ (Nat.log2 x.digits / 3 + 1) * 10 ^ 324 :=
          Nat.mul_lt_mul_of_pos_right hdigits (by positivity)
      _ = 10 ^ (Nat.log2 x.digits / 3 + 1 + 324) := (pow_add ..).symm
      _ ≤ 10 ^ (-x.exponent).toNat := Nat.pow_le_pow_right (by omega) (by omega)
  rw [hnumerator]
  exact ofRatio?_eq_zero (hscaled _ (by decide +kernel))

/-- Reading a decimal is rounding its value; the shortcuts for exponents far out of range are
answers that rounding gives as well. -/
theorem ofDecimal?_eq_ofRatio? (x : Decimal) :
    ofDecimal? x = ofRatio? x.numerator x.denominator := by
  unfold ofDecimal?
  by_cases hzero : x.digits = 0
  · have hnumerator : x.numerator = 0 := by rw [Decimal.numerator, hzero, zero_mul]
    have hpos := x.denominator_pos
    rw [if_pos hzero, hnumerator, ofRatio?_eq_zero (by omega)]
  rw [if_neg hzero]
  by_cases hhuge : 400 < x.exponent
  · rw [if_pos hhuge, ofRatio?_huge hzero hhuge]
  rw [if_neg hhuge]
  by_cases htiny : x.exponent + (Nat.log2 x.digits / 3 + 2 : ℕ) < -400
  · rw [if_pos htiny, ofRatio?_tiny htiny]
  rw [if_neg htiny]
  -- otherwise one of numerator and denominator has the power of ten
  unfold Decimal.numerator Decimal.denominator
  by_cases hsign : 0 ≤ x.exponent
  · rw [if_pos hsign, show (-x.exponent).toNat = 0 by omega, pow_zero, natPow_eq]
  · rw [if_neg hsign, show x.exponent.toNat = 0 by omega, pow_zero, mul_one, natPow_eq]

/-- Decimals of the same value denote the same magnitude. -/
theorem ofDecimal?_congr {x y : Decimal} (h : x.SameValue y) : ofDecimal? x = ofDecimal? y := by
  rw [ofDecimal?_eq_ofRatio?, ofDecimal?_eq_ofRatio?]
  exact ofRatio?_congr x.denominator_pos y.denominator_pos h

/-- Trailing zeros of the digits make no difference. -/
theorem ofDecimal?_trimmed (fuel : ℕ) (x : Decimal) :
    ofDecimal? (x.trimmed fuel) = ofDecimal? x := by
  induction fuel generalizing x with
  | zero => rfl
  | succ fuel ih =>
    unfold Decimal.trimmed
    split
    · rename_i h
      -- the zero at the end moves into the exponent
      have hdigits : x.digits / 10 * 10 ^ 1 = x.digits := by omega
      have hshift := Decimal.sameValue_shift (x.digits / 10) 1 x.exponent
      rw [hdigits] at hshift
      rw [ih]
      exact (ofDecimal?_congr hshift).symm
    · rfl

/-- The exact expansion of a magnitude denotes it. -/
theorem ofDecimal?_exact (m : Magnitude) : ofDecimal? m.exact = some m := by
  rw [ofDecimal?_eq_ofRatio?, ← ofRatio?_units m]
  refine ofRatio?_congr m.exact.denominator_pos ?_ ?_
  · simp only [natPow_eq]
    positivity
  -- the five of every ten is in the digits, and the two in the unit
  have hten : ∀ n, 10 ^ n = 5 ^ n * 2 ^ n := fun n => Nat.mul_pow 5 2 n
  have hnumerator : m.exact.numerator = m.units * 5 ^ 1074 := by
    show m.units * Nat.pow 5 1074 * 10 ^ Int.toNat (-1074) = _
    rw [show Int.toNat (-1074) = 0 from rfl, pow_zero, mul_one]
    simp only [natPow_eq]
  have hdenominator : m.exact.denominator = 10 ^ 1074 := rfl
  rw [hnumerator, hdenominator, hten 1074]
  simp only [natPow_eq]
  ring

/-- A candidate on a grid denotes the magnitude, which is what makes it one. -/
theorem ofDecimal?_onGrid? {m : Magnitude} {tie : Tie} {e : ℤ} {x : Decimal}
    (h : m.onGrid? tie e = some x) : ofDecimal? x = some m := by
  have hdenoted : ∀ y : Decimal, m.denotedBy y = true → ofDecimal? y = some m :=
    fun y hy => of_decide_eq_true hy
  unfold onGrid? at h
  generalize m.ratioOver e = ratio at h
  obtain ⟨n, d⟩ := ratio
  dsimp only at h
  split at h
  · rename_i hbelow _
    cases h
    exact hdenoted _ hbelow
  · rename_i _ habove
    cases h
    exact hdenoted _ habove
  · cases h
  · rename_i hbelow habove
    -- the nearer neighbour or the one the tie asks for, so one of the two
    cases tie <;> dsimp only at h <;> split_ifs at h <;> cases h
    all_goals first | exact hdenoted _ hbelow | exact hdenoted _ habove

/-- What the search for the shortest digits returns denotes the magnitude. -/
theorem ofDecimal?_firstGrid (m : Magnitude) (tie : Tie) (top : ℤ) (count n : ℕ) :
    ofDecimal? (m.firstGrid tie top count n) = some m := by
  induction count generalizing n with
  | zero =>
    -- past the last grid there is the exact expansion
    exact m.ofDecimal?_exact
  | succ count ih =>
    unfold firstGrid
    split
    · rename_i x hx
      exact ofDecimal?_onGrid? hx
    · exact ih (n + 1)

/-- The shortest digits of a magnitude denote it. -/
theorem ofDecimal?_shortest (m : Magnitude) (tie : Tie) :
    ofDecimal? (m.shortest tie) = some m := by
  unfold shortest
  split
  · rename_i hzero
    -- zero has no 53 bits, so it is there with the smallest scale only
    have hscale : m.scale = 0 := by
      rcases m.normal with hnormal | hscale
      · rw [hzero] at hnormal
        simp at hnormal
      · exact hscale
    obtain ⟨significand, scale, _, _, _⟩ := m
    cases hzero
    cases hscale
    rfl
  · rw [ofDecimal?_trimmed]
    exact ofDecimal?_firstGrid m tie _ _ _

end Magnitude

end Provision
