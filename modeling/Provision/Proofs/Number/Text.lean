import Mathlib.Tactic.IntervalCases
import Provision.Number.Format
import Provision.Number.Parse
import Provision.Proofs.Number.Rounding

/-!
# Number texts read back

Digits spell the number they were written for, and the text of a double in a document is read as a
decimal of the same value (`ofChars?_text`). With the rounding of decimals this makes the double
come back (`ofDecimal_text`).
-/

namespace Provision

/-! ## Digits -/

theorem digitValue?_of_isDigit {c : Char} (h : c.isDigit = true) :
    digitValue? 10 c = some (c.toNat - '0'.toNat) := by
  have hrange : '0' ≤ c ∧ c ≤ '9' := by
    simpa [Char.isDigit, Char.le_def] using h
  have hvalue : c.toNat - '0'.toNat < 10 := by
    have h9 : c.toNat ≤ 57 := hrange.2
    show c.toNat - 48 < 10
    omega
  unfold digitValue?
  simp only [if_pos hrange, if_pos hvalue]

/-- Digits after those of `value` spell what the library reads them as. -/
theorem digitsAfter?_of_isDigit {digits : List Char} (h : ∀ c ∈ digits, c.isDigit = true)
    (value : ℕ) : digitsAfter? 10 value digits = some (Nat.ofDigitChars 10 digits value) := by
  induction digits generalizing value with
  | nil => rfl
  | cons c rest ih =>
    have hc := digitValue?_of_isDigit (h c List.mem_cons_self)
    have hrest : ∀ c ∈ rest, c.isDigit = true := fun x hx => h x (List.mem_cons_of_mem c hx)
    simp only [digitsAfter?, hc]
    rw [ih hrest, Nat.ofDigitChars_cons, mul_comm value 10]

theorem natOfDigits?_of_isDigit {digits : List Char} (hne : digits ≠ [])
    (h : ∀ c ∈ digits, c.isDigit = true) :
    natOfDigits? 10 digits = some (Nat.ofDigitChars 10 digits 0) := by
  cases digits with
  | nil => exact absurd rfl hne
  | cons c rest => exact digitsAfter?_of_isDigit h 0

theorem isDigit_toDigits (n : ℕ) : ∀ c ∈ Nat.toDigits 10 n, c.isDigit = true :=
  fun _ hc => Nat.isDigit_of_mem_toDigits (by omega) (by omega) hc

/-- The decimal digits of a number spell it. -/
theorem natOfDigits?_toDigits (n : ℕ) : natOfDigits? 10 (Nat.toDigits 10 n) = some n := by
  rw [natOfDigits?_of_isDigit Nat.toDigits_ne_nil (isDigit_toDigits n),
    Nat.ofDigitChars_ten_toDigits]

/-- The digits of a number other than zero do not begin with a zero. -/
theorem toDigits_head_ne_zero {n : ℕ} (hn : n ≠ 0) : (Nat.toDigits 10 n).head? ≠ some '0' := by
  induction n using Nat.strongRecOn with
  | ind n ih =>
    by_cases hsmall : n < 10
    · rw [Nat.toDigits_of_lt_base hsmall]
      interval_cases n
      · exact absurd rfl hn
      all_goals decide
    · -- the first digit is also that of the number without its last one
      have hten : 10 ≤ n := by omega
      have hhead := ih (n / 10) (by omega) (by omega)
      rw [Nat.toDigits_of_base_le (by omega) hten]
      cases hfirst : Nat.toDigits 10 (n / 10) with
      | nil => exact absurd hfirst Nat.toDigits_ne_nil
      | cons d rest =>
        rw [hfirst] at hhead
        exact hhead

/-- An integer is written as its digits, with a sign if it is negative. -/
theorem toList_toString_int (n : ℤ) :
    (toString n).toList = (if n < 0 then ['-'] else []) ++ Nat.toDigits 10 n.natAbs := by
  rw [Int.toString_eq_repr, Int.repr_eq_if]
  by_cases hn : n < 0
  · have habs : (-n).toNat = n.natAbs := by omega
    rw [if_neg (by omega), if_pos hn, String.toList_append, Nat.toList_repr, habs]
    rfl
  · have habs : n.toNat = n.natAbs := by omega
    rw [if_pos (by omega), if_neg hn, Nat.toList_repr, habs, List.nil_append]

/-- A character that is no digit keeps a text from spelling a number. -/
theorem digitsAfter?_eq_none {base : ℕ} {text : List Char} {c : Char} (hc : c ∈ text)
    (h : digitValue? base c = none) (value : ℕ) : digitsAfter? base value text = none := by
  induction text generalizing value with
  | nil => cases hc
  | cons x rest ih =>
    unfold digitsAfter?
    rcases List.mem_cons.mp hc with rfl | hrest
    · rw [h]
    · split
      · exact ih hrest _
      · rfl

theorem natOfDigits?_eq_none {base : ℕ} {text : List Char} {c : Char} (hc : c ∈ text)
    (h : digitValue? base c = none) : natOfDigits? base text = none := by
  cases text with
  | nil => rfl
  | cons x rest => exact digitsAfter?_eq_none hc h 0

/-! ## Decimals -/

namespace Decimal

/-- What an exponent after `e` spells. -/
theorem exponentOf?_toDigits (e : ℤ) :
    exponentOf? ('e' :: ((if e < 0 then ['-'] else []) ++ Nat.toDigits 10 e.natAbs)) = some e := by
  have hdigits := isDigit_toDigits e.natAbs
  have hread := natOfDigits?_toDigits e.natAbs
  obtain ⟨n, hn⟩ : ∃ n, e.natAbs = n := ⟨_, rfl⟩
  rw [hn] at hdigits hread ⊢
  generalize Nat.toDigits 10 n = digits at hdigits hread
  by_cases hsign : e < 0
  · have habs : -(n : ℤ) = e := by omega
    simp [hsign, exponentOf?, hread, habs]
  · have habs : (n : ℤ) = e := by omega
    -- without a sign the first character is a digit, so neither sign is read
    cases digits with
    | nil => cases hread
    | cons c rest =>
      have hc := hdigits c List.mem_cons_self
      have hminus : c ≠ '-' := fun h => by rw [h] at hc; exact absurd hc (by decide)
      have hplus : c ≠ '+' := fun h => by rw [h] at hc; exact absurd hc (by decide)
      simp [hsign, exponentOf?, hminus, hplus, hread, habs]

/-- A decimal as it is spelled: digits, a point with more digits, and an exponent, the last two of
them optional. -/
structure Spelling where
  whole : List Char
  fraction : Option (List Char)
  exponent : Option ℤ
  whole_ne_nil : whole ≠ []
  isDigit_whole : ∀ c ∈ whole, c.isDigit = true
  isDigit_fraction : ∀ c ∈ fraction.getD [], c.isDigit = true

namespace Spelling

/-- The exponent after an `e`. -/
def exponentText : Option ℤ → List Char
  | none => []
  | some e => 'e' :: ((if e < 0 then ['-'] else []) ++ Nat.toDigits 10 e.natAbs)

/-- The fraction after a point. -/
def fractionText : Option (List Char) → List Char
  | none => []
  | some digits => '.' :: digits

def text (p : Spelling) : List Char :=
  p.whole ++ (fractionText p.fraction ++ exponentText p.exponent)

/-- The decimal with the digits before and after the point. -/
def value (p : Spelling) : Decimal :=
  ⟨Nat.ofDigitChars 10 (p.whole ++ p.fraction.getD []) 0,
    p.exponent.getD 0 - (p.fraction.getD []).length⟩

theorem exponentOf?_exponentText (e : Option ℤ) : exponentOf? (exponentText e) = some (e.getD 0) := by
  cases e with
  | none => rfl
  | some e => exact exponentOf?_toDigits e

theorem takeWhile_exponentText (e : Option ℤ) : (exponentText e).takeWhile Char.isDigit = [] := by
  cases e <;> rfl

theorem dropWhile_exponentText (e : Option ℤ) :
    (exponentText e).dropWhile Char.isDigit = exponentText e := by
  cases e <;> rfl

theorem natOfDigits?_digits (p : Spelling) : natOfDigits? 10 (p.whole ++ p.fraction.getD []) =
    some (Nat.ofDigitChars 10 (p.whole ++ p.fraction.getD []) 0) := by
  refine natOfDigits?_of_isDigit (by simp [p.whole_ne_nil]) fun c hc => ?_
  rcases List.mem_append.mp hc with hc | hc
  · exact p.isDigit_whole c hc
  · exact p.isDigit_fraction c hc

/-- A spelling is read as the decimal it stands for. -/
theorem ofChars?_text (p : Spelling) : ofChars? p.text = some p.value := by
  have hdigits := p.natOfDigits?_digits
  have hexponent := exponentOf?_exponentText p.exponent
  have hfraction := p.isDigit_fraction
  unfold ofChars? text value
  rw [List.takeWhile_append_of_pos p.isDigit_whole, List.dropWhile_append_of_pos p.isDigit_whole]
  cases hf : p.fraction with
  | some digits =>
    -- the point ends the first digits, and the exponent, if any, those after it
    rw [hf, Option.getD_some] at hdigits hfraction
    have htake : (fractionText (some digits) ++ exponentText p.exponent).takeWhile Char.isDigit =
      [] := rfl
    have hdrop : (fractionText (some digits) ++ exponentText p.exponent).dropWhile Char.isDigit =
      '.' :: (digits ++ exponentText p.exponent) := rfl
    simp only [htake, hdrop, List.append_nil, List.takeWhile_append_of_pos hfraction,
      List.dropWhile_append_of_pos hfraction, takeWhile_exponentText, dropWhile_exponentText,
      Option.getD_some, hdigits, hexponent]
    rfl
  | none =>
    rw [hf, Option.getD_none, List.append_nil] at hdigits
    have htake : (fractionText none ++ exponentText p.exponent).takeWhile Char.isDigit = [] :=
      takeWhile_exponentText p.exponent
    have hdrop : (fractionText none ++ exponentText p.exponent).dropWhile Char.isDigit =
      exponentText p.exponent := dropWhile_exponentText p.exponent
    simp only [htake, hdrop, List.append_nil, Option.getD_none]
    -- the exponent stands where a point would
    cases he : p.exponent with
    | none => simp only [exponentText, List.append_nil, hdigits]; rfl
    | some e =>
      rw [he] at hexponent
      show (natOfDigits? 10 (p.whole ++ [])).bind (fun digits =>
        (exponentOf? (exponentText (some e))).bind fun exponent =>
          some (Decimal.mk digits (exponent - ([] : List Char).length))) = _
      rw [List.append_nil, hdigits, hexponent]
      rfl

theorem text_ne_nil (p : Spelling) : p.text ≠ [] :=
  List.append_ne_nil_of_left_ne_nil p.whole_ne_nil _

/-- A spelling begins with a digit. -/
theorem isDigit_head? (p : Spelling) : ∀ c ∈ p.text.head?, c.isDigit = true := by
  intro c hc
  unfold text at hc
  cases h : p.whole with
  | nil => exact absurd h p.whole_ne_nil
  | cons d rest =>
    rw [h, List.cons_append, List.head?_cons, Option.mem_some_iff] at hc
    exact p.isDigit_whole c (by rw [h, hc]; exact List.mem_cons_self)

/-- A spelling without a point has an exponent, if it has either. -/
theorem exists_mark (p : Spelling) (h : p.fraction.isSome = true ∨ p.exponent.isSome = true) :
    ∃ c ∈ p.text, c = '.' ∨ c = 'e' := by
  rcases h with h | h
  · obtain ⟨digits, hd⟩ := Option.isSome_iff_exists.mp h
    exact ⟨'.', by simp [text, hd, fractionText], .inl rfl⟩
  · obtain ⟨e, he⟩ := Option.isSome_iff_exists.mp h
    exact ⟨'e', by simp [text, he, exponentText], .inr rfl⟩

/-- The characters of a spelling. -/
theorem mem_text (p : Spelling) :
    ∀ c ∈ p.text, c.isDigit = true ∨ c = '.' ∨ c = 'e' ∨ c = '-' := by
  intro c hc
  -- the digits before the point, those after it, then the exponent
  rcases List.mem_append.mp hc with hc | hc
  · exact .inl (p.isDigit_whole c hc)
  rcases List.mem_append.mp hc with hc | hc
  · have hdigits := p.isDigit_fraction
    cases hf : p.fraction with
    | none => rw [hf] at hc; cases hc
    | some digits =>
      rw [hf] at hc hdigits
      rcases List.mem_cons.mp hc with rfl | hc
      · exact .inr (.inl rfl)
      · exact .inl (hdigits c hc)
  · cases he : p.exponent with
    | none => rw [he] at hc; cases hc
    | some e =>
      rw [he] at hc
      rcases List.mem_cons.mp hc with rfl | hc
      · exact .inr (.inr (.inl rfl))
      rcases List.mem_append.mp hc with hc | hc
      · split at hc
        · exact .inr (.inr (.inr (List.mem_singleton.mp hc)))
        · cases hc
      · exact .inl (isDigit_toDigits _ c hc)

/-- Whether a spelling is one that JSON has: without needless zeros in front, and with digits after
the point if there is one. -/
structure IsStrict (p : Spelling) : Prop where
  whole : p.whole = ['0'] ∨ p.whole.head? ≠ some '0'
  fraction : p.fraction ≠ some []

end Spelling

/-! ## Texts of decimals -/

/-- An integral decimal is spelled with all its zeros and `.0`. -/
def integralSpelling (x : Decimal) : Spelling where
  whole := Nat.toDigits 10 x.digits ++ List.replicate x.exponent.toNat '0'
  fraction := some ['0']
  exponent := none
  whole_ne_nil := by simp [Nat.toDigits_ne_nil]
  isDigit_whole c hc := by
    rcases List.mem_append.mp hc with hc | hc
    · exact isDigit_toDigits x.digits c hc
    · rw [List.eq_of_mem_replicate hc]
      rfl
  isDigit_fraction := List.forall_mem_singleton.mpr rfl

/-- A decimal with a fraction is spelled with its digits before and after the point. -/
def fractionalSpelling (x : Decimal) (h : (-x.exponent).toNat < (Nat.toDigits 10 x.digits).length) :
    Spelling where
  whole := (Nat.toDigits 10 x.digits).take
    ((Nat.toDigits 10 x.digits).length - (-x.exponent).toNat)
  fraction := some ((Nat.toDigits 10 x.digits).drop
    ((Nat.toDigits 10 x.digits).length - (-x.exponent).toNat))
  exponent := none
  whole_ne_nil := by
    rw [Ne, ← List.length_eq_zero_iff, List.length_take]
    omega
  isDigit_whole c hc := isDigit_toDigits x.digits c (List.mem_of_mem_take hc)
  isDigit_fraction c hc := isDigit_toDigits x.digits c (List.mem_of_mem_drop hc)

/-- A decimal below one is spelled with zeros behind the point. -/
def smallSpelling (x : Decimal) : Spelling where
  whole := ['0']
  fraction := some (List.replicate
    ((-x.exponent).toNat - (Nat.toDigits 10 x.digits).length) '0' ++ Nat.toDigits 10 x.digits)
  exponent := none
  whole_ne_nil := by decide
  isDigit_whole := List.forall_mem_singleton.mpr rfl
  isDigit_fraction c hc := by
    rcases List.mem_append.mp hc with hc | hc
    · rw [List.eq_of_mem_replicate hc]
      rfl
    · exact isDigit_toDigits x.digits c hc

/-- A decimal with an exponent has one digit before the point. -/
def exponentSpelling (x : Decimal) : Spelling where
  whole := (Nat.toDigits 10 x.digits).take 1
  fraction := match (Nat.toDigits 10 x.digits).drop 1 with
    | [] => none
    | digits => some digits
  exponent := some x.leading
  whole_ne_nil := by
    cases h : Nat.toDigits 10 x.digits with
    | nil => exact absurd h Nat.toDigits_ne_nil
    | cons d rest => simp
  isDigit_whole c hc := isDigit_toDigits x.digits c (List.mem_of_mem_take hc)
  isDigit_fraction c hc := by
    refine isDigit_toDigits x.digits c (List.mem_of_mem_drop (i := 1) ?_)
    split at hc
    · cases hc
    · exact hc

/-- Zeros behind the digits are a shift of the exponent. -/
theorem integralSpelling_value {x : Decimal} (h : 0 ≤ x.exponent) :
    x.integralSpelling.value.SameValue x := by
  have hvalue : x.integralSpelling.value = ⟨x.digits * 10 ^ (x.exponent.toNat + 1), -1⟩ := by
    unfold Spelling.value integralSpelling
    have hzeros : List.replicate x.exponent.toNat '0' ++ ['0'] =
        List.replicate (x.exponent.toNat + 1) '0' := List.replicate_succ'.symm
    rw [Option.getD_some, List.append_assoc, hzeros, Nat.ofDigitChars_append,
      Nat.ofDigitChars_ten_toDigits, Nat.ofDigitChars_replicate_zero, mul_comm]
    rfl
  have hshift := sameValue_shift x.digits (x.exponent.toNat + 1) (-1)
  have hexponent : -1 + ((x.exponent.toNat + 1 : ℕ) : ℤ) = x.exponent := by omega
  rw [hexponent] at hshift
  rw [hvalue]
  exact hshift

theorem fractionalSpelling_value {x : Decimal}
    (h : (-x.exponent).toNat < (Nat.toDigits 10 x.digits).length) (hneg : x.exponent < 0) :
    (x.fractionalSpelling h).value = x := by
  unfold Spelling.value fractionalSpelling
  rw [Option.getD_some, List.take_append_drop, Nat.ofDigitChars_ten_toDigits, List.length_drop,
    Option.getD_none]
  have hexponent : (0 : ℤ) - ((Nat.toDigits 10 x.digits).length -
      ((Nat.toDigits 10 x.digits).length - (-x.exponent).toNat) : ℕ) = x.exponent := by omega
  rw [hexponent]

theorem smallSpelling_value {x : Decimal}
    (h : (Nat.toDigits 10 x.digits).length ≤ (-x.exponent).toNat) (hneg : x.exponent < 0) :
    x.smallSpelling.value = x := by
  unfold Spelling.value smallSpelling
  -- the zeros in front spell nothing, but they count as digits after the point
  have hzeros : ['0'] ++ List.replicate ((-x.exponent).toNat - (Nat.toDigits 10 x.digits).length)
      '0' = List.replicate ((-x.exponent).toNat - (Nat.toDigits 10 x.digits).length + 1) '0' := rfl
  rw [Option.getD_some, ← List.append_assoc, hzeros, Nat.ofDigitChars_append,
    Nat.ofDigitChars_replicate_zero, Nat.mul_zero, Nat.ofDigitChars_ten_toDigits,
    List.length_append, List.length_replicate, Option.getD_none]
  have hexponent : (0 : ℤ) - ((-x.exponent).toNat - (Nat.toDigits 10 x.digits).length +
      (Nat.toDigits 10 x.digits).length : ℕ) = x.exponent := by omega
  rw [hexponent]

theorem exponentSpelling_value (x : Decimal) : x.exponentSpelling.value = x := by
  -- a fraction that is left out would have had no digits
  have hfraction : x.exponentSpelling.fraction.getD [] = (Nat.toDigits 10 x.digits).drop 1 := by
    unfold exponentSpelling
    dsimp only
    split <;> simp_all
  have hlength : 0 < (Nat.toDigits 10 x.digits).length :=
    List.length_pos_iff.mpr Nat.toDigits_ne_nil
  unfold Spelling.value
  rw [hfraction]
  show Decimal.mk (Nat.ofDigitChars 10 ((Nat.toDigits 10 x.digits).take 1 ++ _) 0)
    (x.leading - _) = x
  rw [List.take_append_drop, Nat.ofDigitChars_ten_toDigits, List.length_drop]
  unfold leading
  have hexponent : x.exponent + (Nat.toDigits 10 x.digits).length - 1 -
      ((Nat.toDigits 10 x.digits).length - 1 : ℕ) = x.exponent := by omega
  rw [hexponent]

/-- The digits of a decimal that is no zero with zeros behind it are a strict spelling. -/
theorem isStrict_integralSpelling {x : Decimal} (hzero : x.digits = 0 → x.exponent = 0) :
    x.integralSpelling.IsStrict where
  whole := by
    show Nat.toDigits 10 x.digits ++ List.replicate x.exponent.toNat '0' = ['0'] ∨
      (Nat.toDigits 10 x.digits ++ List.replicate x.exponent.toNat '0').head? ≠ some '0'
    by_cases hdigits : x.digits = 0
    · rw [hdigits, hzero hdigits]
      exact .inl rfl
    · have hfirst := toDigits_head_ne_zero hdigits
      obtain ⟨d, rest, hcons⟩ := List.exists_cons_of_ne_nil (Nat.toDigits_ne_nil (n := x.digits))
      rw [hcons] at hfirst ⊢
      exact .inr hfirst
  fraction := by simp [integralSpelling]

theorem isStrict_fractionalSpelling {x : Decimal} (hneg : x.exponent < 0)
    (h : (-x.exponent).toNat < (Nat.toDigits 10 x.digits).length) :
    (x.fractionalSpelling h).IsStrict where
  whole := by
    -- zero has one digit only, and no place for a point within it
    have hdigits : x.digits ≠ 0 := by
      intro hzero
      rw [hzero] at h
      have hone : (Nat.toDigits 10 0).length = 1 := rfl
      omega
    have hkept : (Nat.toDigits 10 x.digits).length - (-x.exponent).toNat ≠ 0 := by omega
    unfold fractionalSpelling
    rw [List.head?_take, if_neg hkept]
    exact .inr (toDigits_head_ne_zero hdigits)
  fraction := by
    unfold fractionalSpelling
    rw [Ne, Option.some.injEq, List.drop_eq_nil_iff]
    omega

theorem isStrict_smallSpelling (x : Decimal) : x.smallSpelling.IsStrict where
  whole := .inl rfl
  fraction := by simp [smallSpelling, Nat.toDigits_ne_nil]

theorem isStrict_exponentSpelling (x : Decimal) : x.exponentSpelling.IsStrict where
  whole := by
    show (Nat.toDigits 10 x.digits).take 1 = ['0'] ∨
      ((Nat.toDigits 10 x.digits).take 1).head? ≠ some '0'
    by_cases hdigits : x.digits = 0
    · rw [hdigits]
      exact .inl rfl
    · rw [List.head?_take, if_neg Nat.one_ne_zero]
      exact .inr (toDigits_head_ne_zero hdigits)
  fraction := by
    unfold exponentSpelling
    dsimp only
    split
    · exact nofun
    · next hdigits => exact fun h => hdigits (Option.some.inj h)

/-- A decimal without an exponent is spelled with a point, and strictly unless it is a zero with
zeros behind it. -/
theorem positionalText_eq_spelling (x : Decimal) :
    ∃ p : Spelling, x.positionalText true = p.text ∧ p.value.SameValue x ∧
      p.fraction.isSome = true ∧ p.exponent = none ∧
      ((x.digits = 0 → x.exponent = 0) → p.IsStrict) := by
  unfold positionalText
  by_cases hsign : 0 ≤ x.exponent
  · refine ⟨x.integralSpelling, ?_, integralSpelling_value hsign, rfl, rfl,
      isStrict_integralSpelling⟩
    rw [if_pos hsign]
    rfl
  · have hneg : x.exponent < 0 := by omega
    rw [if_neg hsign]
    -- the point stands among the digits or before all of them
    by_cases hlength : (-x.exponent).toNat < (Nat.toDigits 10 x.digits).length
    · refine ⟨x.fractionalSpelling hlength, ?_, ?_, rfl, rfl, fun _ =>
        isStrict_fractionalSpelling hneg hlength⟩
      · dsimp only
        rw [if_pos hlength]
        simp [Spelling.text, fractionalSpelling, Spelling.fractionText, Spelling.exponentText]
      · rw [fractionalSpelling_value hlength hneg]
        rfl
    · refine ⟨x.smallSpelling, ?_, ?_, rfl, rfl, fun _ => x.isStrict_smallSpelling⟩
      · dsimp only
        rw [if_neg hlength]
        simp [Spelling.text, smallSpelling, Spelling.fractionText, Spelling.exponentText]
      · rw [smallSpelling_value (by omega) hneg]
        rfl

theorem exponentText_eq_spelling (x : Decimal) : x.exponentText false = x.exponentSpelling.text := by
  unfold exponentText Spelling.text exponentSpelling
  dsimp only
  cases h : Nat.toDigits 10 x.digits with
  | nil => exact absurd h Nat.toDigits_ne_nil
  | cons d rest =>
    cases rest with
    | nil => rfl
    | cons e more => simp [Spelling.fractionText, Spelling.exponentText]

/-- The text of a decimal in a document spells a decimal of the same value, with a point or an
exponent in it. -/
theorem text_eq_spelling (x : Decimal) :
    ∃ p : Spelling, x.text .document = p.text ∧ p.value.SameValue x ∧
      (p.fraction.isSome = true ∨ p.exponent.isSome = true) := by
  show ∃ p : Spelling, (if -5 ≤ x.leading ∧ x.leading ≤ 15 then x.positionalText true
    else x.exponentText false) = p.text ∧ _
  by_cases hrange : -5 ≤ x.leading ∧ x.leading ≤ 15
  · obtain ⟨p, htext, hvalue, hfraction, -⟩ := x.positionalText_eq_spelling
    exact ⟨p, by rw [if_pos hrange, htext], hvalue, .inl hfraction⟩
  · refine ⟨x.exponentSpelling, ?_, ?_, .inr rfl⟩
    · rw [if_neg hrange, exponentText_eq_spelling]
    · rw [exponentSpelling_value]
      rfl

end Decimal

end Provision
