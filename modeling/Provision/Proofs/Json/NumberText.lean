import Provision.Json.Source
import Provision.Proofs.Number.Text
import Provision.Proofs.Value

/-!
# Numbers in JSON texts

The text of a number, with something behind it that no number goes on with, is read as that number.
An integer of 64 bits comes back as it was. Of a finite double the digits come back, and these denote
it; the number that the reader makes of them is computed in steps, each of which may round.
-/

namespace Provision

open Json

/-! ## Texts with a sign in the exponent -/

namespace Decimal

namespace Spelling

variable {p : Spelling}

/-- The exponent after an `e`, with a sign in any case. -/
def signedExponentText : Option ℤ → List Char
  | none => []
  | some e => 'e' :: (if e < 0 then '-' else '+') :: Nat.toDigits 10 e.natAbs

/-- The text of a spelling as JSON has it. -/
def signedText (p : Spelling) : List Char :=
  p.whole ++ (fractionText p.fraction ++ signedExponentText p.exponent)

/-- Without an exponent there is no sign to write. -/
theorem signedText_eq_text (h : p.exponent = none) : p.signedText = p.text := by
  unfold signedText text
  rw [h]
  rfl

/-- The digits of a natural number, as a spelling. -/
def ofNat (n : ℕ) : Spelling where
  whole := Nat.toDigits 10 n
  fraction := none
  exponent := none
  whole_ne_nil := Nat.toDigits_ne_nil
  isDigit_whole := isDigit_toDigits n
  isDigit_fraction := nofun

/-- The digits of a number have no needless zeros. -/
theorem isStrict_ofNat (n : ℕ) : (ofNat n).IsStrict where
  whole := by
    show Nat.toDigits 10 n = ['0'] ∨ (Nat.toDigits 10 n).head? ≠ some '0'
    by_cases hn : n = 0
    · rw [hn]
      exact .inl rfl
    · exact .inr (toDigits_head_ne_zero hn)
  fraction := nofun

theorem signedText_ofNat (n : ℕ) : (ofNat n).signedText = Nat.toDigits 10 n :=
  List.append_nil _

end Spelling

theorem exponentText_eq_signedText (x : Decimal) :
    x.exponentText true = x.exponentSpelling.signedText := by
  have hsign : (if x.leading < 0 then ['-'] else if true = true then ['+'] else []) =
      [if x.leading < 0 then '-' else '+'] := by
    split <;> rfl
  unfold exponentText Spelling.signedText exponentSpelling
  rw [hsign]
  dsimp only
  cases h : Nat.toDigits 10 x.digits with
  | nil => exact absurd h Nat.toDigits_ne_nil
  | cons d rest =>
    cases rest with
    | nil => rfl
    | cons e more => simp [Spelling.fractionText, Spelling.signedExponentText]

/-- The text of a decimal in JSON strictly spells a decimal of the same value. -/
theorem text_json_eq (x : Decimal) (hzero : x.digits = 0 → x.exponent = 0) :
    ∃ p : Spelling, x.text .json = p.signedText ∧ p.value.SameValue x ∧ p.IsStrict := by
  show ∃ p : Spelling, (if -5 ≤ x.leading ∧ x.leading ≤ 15 then x.positionalText true
    else x.exponentText true) = p.signedText ∧ _
  by_cases hrange : -5 ≤ x.leading ∧ x.leading ≤ 15
  · obtain ⟨p, htext, hvalue, -, hexponent, hstrict⟩ := x.positionalText_eq_spelling
    refine ⟨p, ?_, hvalue, hstrict hzero⟩
    rw [if_pos hrange, htext, Spelling.signedText_eq_text hexponent]
  · refine ⟨x.exponentSpelling, ?_, ?_, x.isStrict_exponentSpelling⟩
    · rw [if_neg hrange, exponentText_eq_signedText]
    · rw [exponentSpelling_value]
      rfl

end Decimal

/-- The shortest digits of zero are a single one. -/
theorem Magnitude.exponent_shortest_eq_zero {m : Magnitude} {tie : Tie}
    (h : (m.shortest tie).digits = 0) : (m.shortest tie).exponent = 0 := by
  have hdenoted := m.ofDecimal?_shortest tie
  unfold ofDecimal? at hdenoted
  rw [if_pos h] at hdenoted
  obtain rfl := Option.some.inj hdenoted
  rfl

/-- The text of a finite double in JSON: a sign, and then digits that denote it. -/
theorem Double.text_json_finite (negative : Bool) (m : Magnitude) : ∃ p : Decimal.Spelling,
    ((Double.finite negative m).text .json).toList =
      (if negative then ['-'] else []) ++ p.signedText ∧
    Magnitude.ofDecimal? p.value = some m ∧ p.IsStrict := by
  obtain ⟨p, htext, hvalue, hstrict⟩ :=
    (m.shortest NumberFormat.json.tie).text_json_eq Magnitude.exponent_shortest_eq_zero
  refine ⟨p, ?_, ?_, hstrict⟩
  · show (String.ofList (if negative then '-' :: (m.shortest NumberFormat.json.tie).text _
      else (m.shortest NumberFormat.json.tie).text _)).toList = _
    rw [String.toList_ofList, htext]
    cases negative <;> rfl
  · rw [Magnitude.ofDecimal?_congr hvalue, Magnitude.ofDecimal?_shortest]

/-! ## Reading them -/

namespace Json

/-- Whether a text goes on with nothing that a number goes on with. -/
def StopsNumber (rest : List Char) : Prop :=
  ∀ c ∈ rest.head?, c.isDigit = false ∧ c ∉ ['.', 'e', 'E']

variable {rest : List Char} {fraction : Option (List Char)}

/-- Digits end where a text goes on with something else. -/
theorem takeWhile_digits {digits : List Char} (hdigits : ∀ c ∈ digits, c.isDigit = true)
    (hrest : ∀ c ∈ rest.head?, c.isDigit = false) :
    (digits ++ rest).takeWhile Char.isDigit = digits ∧
      (digits ++ rest).dropWhile Char.isDigit = rest := by
  rw [List.takeWhile_append_of_pos hdigits, List.dropWhile_append_of_pos hdigits]
  cases rest with
  | nil => exact ⟨List.append_nil _, rfl⟩
  | cons c rest =>
    have hc : ¬c.isDigit = true := by simp [hrest c rfl]
    rw [List.takeWhile_cons_of_neg hc, List.dropWhile_cons_of_neg hc]
    exact ⟨List.append_nil _, rfl⟩

/-- An exponent, if there is one, is read up to its last digit. -/
theorem exponentPart_signed (negative : Bool) (whole : List Char) (fraction : Option (List Char))
    (e : Option ℤ) (hrest : StopsNumber rest) :
    exponentPart negative whole fraction (Decimal.Spelling.signedExponentText e ++ rest) =
      (.number (number negative whole fraction e), some rest) := by
  cases e with
  | none =>
    show exponentPart negative whole fraction rest = _
    unfold exponentPart
    split
    · exact absurd (by decide) (hrest 'e' rfl).2
    · exact absurd (by decide) (hrest 'E' rfl).2
    · rfl
  | some e =>
    have hdigits := takeWhile_digits (isDigit_toDigits e.natAbs) fun c hc => (hrest c hc).1
    have hread := natOfDigits?_toDigits e.natAbs
    obtain ⟨n, hn⟩ : ∃ n, e.natAbs = n := ⟨_, rfl⟩
    rw [hn] at hdigits hread
    show exponentPart negative whole fraction
      ('e' :: (if e < 0 then '-' else '+') :: (Nat.toDigits 10 e.natAbs ++ rest)) = _
    rw [hn]
    by_cases hsign : e < 0
    · have habs : -(n : ℤ) = e := by omega
      simp [hsign, exponentPart, hdigits, hread, habs]
    · have habs : (n : ℤ) = e := by omega
      simp [hsign, exponentPart, hdigits, hread, habs]

/-- Behind the last digit of a fraction comes no further digit. -/
theorem isDigit_head?_exponent (e : Option ℤ) (hrest : StopsNumber rest) :
    ∀ c ∈ (Decimal.Spelling.signedExponentText e ++ rest).head?, c.isDigit = false := by
  intro c hc
  cases e with
  | none => exact (hrest c hc).1
  | some e =>
    cases hc
    rfl

/-- Behind the last digit before a point comes no further digit. -/
theorem isDigit_head?_fraction (fraction : Option (List Char)) (e : Option ℤ)
    (hrest : StopsNumber rest) :
    ∀ c ∈ (Decimal.Spelling.fractionText fraction ++
      (Decimal.Spelling.signedExponentText e ++ rest)).head?, c.isDigit = false := by
  intro c hc
  cases fraction with
  | none => exact isDigit_head?_exponent e hrest c hc
  | some digits =>
    cases hc
    rfl

/-- Behind a point there has to be a digit. -/
theorem fractionPart_point (negative : Bool) (whole chars : List Char) :
    fractionPart negative whole ('.' :: chars) =
      if (chars.takeWhile Char.isDigit).isEmpty = true then missingDigit chars
      else exponentPart negative whole (some (chars.takeWhile Char.isDigit))
        (chars.dropWhile Char.isDigit) :=
  rfl

/-- So are the digits after a point. -/
theorem fractionPart_signed (negative : Bool) (whole : List Char) (hfraction : fraction ≠ some [])
    (hdigits : ∀ c ∈ fraction.getD [], c.isDigit = true) (e : Option ℤ)
    (hrest : StopsNumber rest) :
    fractionPart negative whole (Decimal.Spelling.fractionText fraction ++
      (Decimal.Spelling.signedExponentText e ++ rest)) =
      (.number (number negative whole fraction e), some rest) := by
  cases fraction with
  | none =>
    have hexponent := exponentPart_signed negative whole none e hrest
    show fractionPart negative whole (Decimal.Spelling.signedExponentText e ++ rest) = _
    generalize hchars : Decimal.Spelling.signedExponentText e ++ rest = chars at hexponent
    unfold fractionPart
    split
    · -- neither the exponent nor what is behind the number begins with a point
      cases e with
      | none => exact absurd (by decide) (hrest '.' (congrArg List.head? hchars)).2
      | some e => cases hchars
    · exact hexponent
  | some digits =>
    have hdigits : ∀ c ∈ digits, c.isDigit = true := hdigits
    obtain ⟨htake, hdrop⟩ := takeWhile_digits hdigits (isDigit_head?_exponent e hrest)
    have hsome : digits.isEmpty = false := by
      rw [List.isEmpty_eq_false_iff]
      exact fun hnil => hfraction (congrArg some hnil)
    show fractionPart negative whole
      ('.' :: (digits ++ (Decimal.Spelling.signedExponentText e ++ rest))) = _
    rw [fractionPart_point, htake, hdrop, hsome, if_neg Bool.false_ne_true]
    exact exponentPart_signed negative whole (some digits) e hrest

/-- A number is read up to where its text ends. -/
theorem numberPart_signedText (negative : Bool) {p : Decimal.Spelling} (hp : p.IsStrict)
    (hrest : StopsNumber rest) :
    numberPart negative (p.signedText ++ rest) =
      (.number (number negative p.whole p.fraction p.exponent), some rest) := by
  have hbehind := isDigit_head?_fraction p.fraction p.exponent hrest
  have hfraction := fractionPart_signed negative p.whole hp.fraction p.isDigit_fraction p.exponent
    hrest
  unfold Decimal.Spelling.signedText
  rw [List.append_assoc, List.append_assoc]
  generalize Decimal.Spelling.fractionText p.fraction ++
    (Decimal.Spelling.signedExponentText p.exponent ++ rest) = behind at hbehind hfraction ⊢
  obtain ⟨htake, hdrop⟩ := takeWhile_digits p.isDigit_whole hbehind
  have hsome : p.whole.isEmpty = false := List.isEmpty_eq_false_iff.mpr p.whole_ne_nil
  -- a leading zero is the whole part alone; only then is a digit behind it refused
  rcases hp.whole with hzero | hfirst
  · have hnot : ¬behind.head?.any Char.isDigit = true := by
      rw [Option.any_eq_true]
      rintro ⟨c, hc, hdigit⟩
      rw [hbehind c hc] at hdigit
      cases hdigit
    rw [hzero] at hfraction ⊢
    show (if behind.head?.any Char.isDigit = true then _ else _) = _
    rw [if_neg hnot]
    exact hfraction
  · unfold numberPart
    split
    · next heq =>
      obtain ⟨d, digits, hcons⟩ := List.exists_cons_of_ne_nil p.whole_ne_nil
      rw [hcons] at heq hfirst
      exact absurd (congrArg some (List.cons.inj heq).1) hfirst
    · dsimp only
      rw [htake, hdrop, hsome]
      exact hfraction

/-! ## Integers -/

theorem le_ofDigitChars (digits : List Char) (value : ℕ) :
    value ≤ Nat.ofDigitChars 10 digits value := by
  induction digits generalizing value with
  | nil => exact le_refl value
  | cons c rest ih =>
    rw [Nat.ofDigitChars_cons]
    have hnext := ih (10 * value + (c.toNat - '0'.toNat))
    omega

/-- No digit of a number below `2 ^ 64` is dropped. -/
theorem significand_eq {digits : List Char} {value : ℕ}
    (h : Nat.ofDigitChars 10 digits value < Nat.pow 2 64) :
    significand value digits = (Nat.ofDigitChars 10 digits value, 0) := by
  induction digits generalizing value with
  | nil => rfl
  | cons c rest ih =>
    rw [Nat.ofDigitChars_cons, mul_comm] at h ⊢
    have hnext := (le_ofDigitChars rest (value * 10 + (c.toNat - '0'.toNat))).trans_lt h
    unfold significand
    dsimp only
    rw [if_pos hnext]
    exact ih h

/-- The digits of an integer of 64 bits are read as that integer. -/
theorem number_toDigits {n : ℤ} (h : IsInt64 n) :
    number (decide (n < 0)) (Nat.toDigits 10 n.natAbs) none none = some (.int n) := by
  obtain ⟨hlow, hhigh⟩ := h
  have hpow : Nat.pow 2 63 = 9223372036854775808 := by norm_num
  have hpow' : Nat.pow 2 64 = 18446744073709551616 := by norm_num
  have hbound : n.natAbs < Nat.pow 2 64 := by omega
  have hread := Nat.ofDigitChars_ten_toDigits (n := n.natAbs)
  unfold number
  rw [significand_eq (by rwa [hread]), hread]
  by_cases hneg : n < 0
  · have habs : -(n.natAbs : ℤ) = n := by omega
    have hrange : 0 < n.natAbs ∧ n.natAbs ≤ Nat.pow 2 63 := ⟨by omega, by omega⟩
    rw [decide_eq_true hneg]
    show (if 0 < n.natAbs ∧ n.natAbs ≤ Nat.pow 2 63 then some (Atom.int (-n.natAbs)) else _) = _
    rw [if_pos hrange, habs]
  · have habs : (n.natAbs : ℤ) = n := by omega
    rw [decide_eq_false hneg]
    show some (Atom.int n.natAbs) = _
    rw [habs]

end Json

end Provision
