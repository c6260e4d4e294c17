import Mathlib.Tactic.IntervalCases
import Provision.Proofs.Number.Text
import Provision.Proofs.Value
import Provision.Yaml.NodeText

/-!
# Plain scalars

The texts that null, flags and numbers are written as can stand plain, and plain they denote what
they were written for. A text that asks to stand plain denotes itself.
-/

namespace Provision.Yaml

/-! ## Texts with the looks of numbers -/

def digitChars : List Char := "0123456789".toList

/-- The characters that numbers are written with. -/
def numberChars : List Char := "0123456789.e-".toList

theorem mem_digitChars {c : Char} (h : c.isDigit = true) : c ∈ digitChars := by
  have hrange : '0' ≤ c ∧ c ≤ '9' := by simpa [Char.isDigit, Char.le_def] using h
  have hlow : 48 ≤ c.toNat := hrange.1
  have hhigh : c.toNat ≤ 57 := hrange.2
  rw [← Char.ofNat_toNat c]
  generalize c.toNat = n at hlow hhigh
  interval_cases n <;> decide

/-- What is checked of each character of a list holds of all of them. -/
theorem forall_mem_of_all {P : Char → Prop} [DecidablePred P] {chars : List Char}
    (h : chars.all (fun c => decide (P c)) = true) : ∀ c ∈ chars, P c :=
  fun c hc => of_decide_eq_true (List.all_eq_true.mp h c hc)

theorem mem_numberChars_of_isDigit {c : Char} (h : c.isDigit = true) : c ∈ numberChars := by
  have hsubset : ∀ c ∈ digitChars, c ∈ numberChars :=
    forall_mem_of_all (by decide)
  exact hsubset c (mem_digitChars h)

/-- A digit and more of what numbers are written with, after a minus sign or not. -/
inductive LooksNumeric : List Char → Prop
  | unsigned {d : Char} {rest : List Char} (hd : d ∈ digitChars)
      (hrest : ∀ c ∈ rest, c ∈ numberChars) : LooksNumeric (d :: rest)
  | negative {d : Char} {rest : List Char} (hd : d ∈ digitChars)
      (hrest : ∀ c ∈ rest, c ∈ numberChars) : LooksNumeric ('-' :: d :: rest)

theorem hasPair_eq_false {p q : Char → Bool} {text : List Char} (h : ∀ c ∈ text, p c = false) :
    hasPair p q text = false := by
  induction text with
  | nil => rfl
  | cons a rest ih =>
    cases rest with
    | nil => rfl
    | cons b rest =>
      have ha := h a List.mem_cons_self
      have hrest := ih fun c hc => h c (List.mem_cons_of_mem a hc)
      unfold hasPair
      rw [ha, hrest]
      rfl

theorem hasInnerIndicator_eq_false (before : Char) {text : List Char}
    (h : ∀ c ∈ text, c ≠ ':' ∧ c ≠ '#') : hasInnerIndicator before text = false := by
  induction text generalizing before with
  | nil => rfl
  | cons c rest ih =>
    have hc := h c List.mem_cons_self
    have hrest := ih c fun x hx => h x (List.mem_cons_of_mem c hx)
    simp [hasInnerIndicator, hc.1, hc.2, hrest]

/-- What is no indicator at the end of a text is none elsewhere. -/
theorem isFirstIndicator_of_none {c : Char} (h : isFirstIndicator c none = false)
    (next : Option Char) : isFirstIndicator c next = false := by
  simp only [isFirstIndicator, endsToken, Bool.and_true, Bool.or_eq_false_iff] at h ⊢
  obtain ⟨hindicator, ⟨hquestion, hcolon⟩, hdash⟩ := h
  exact ⟨hindicator, by rw [hquestion, hcolon, hdash, Bool.or_self, Bool.or_self, Bool.false_and]⟩

namespace LooksNumeric

variable {text : List Char}

theorem mem_numberChars (h : LooksNumeric text) : ∀ c ∈ text, c ∈ numberChars := by
  have hdigits : ∀ c ∈ digitChars, c ∈ numberChars :=
    forall_mem_of_all (by decide)
  intro c hc
  cases h with
  | unsigned hd hrest =>
    rcases List.mem_cons.mp hc with rfl | hc
    · exact hdigits c hd
    · exact hrest c hc
  | negative hd hrest =>
    rcases List.mem_cons.mp hc with rfl | hc
    · decide
    rcases List.mem_cons.mp hc with rfl | hc
    · exact hdigits c hd
    · exact hrest c hc

theorem ne_nil (h : LooksNumeric text) : text ≠ [] := by
  cases h <;> exact List.cons_ne_nil _ _

/-- Nothing in a number ends a plain scalar. -/
theorem hasIndicator_eq_false (h : LooksNumeric text) : hasIndicator text = false := by
  have hinner : ∀ c ∈ text, c ≠ ':' ∧ c ≠ '#' := by
    have hchars : ∀ c ∈ numberChars, c ≠ ':' ∧ c ≠ '#' :=
      forall_mem_of_all (by decide)
    exact fun c hc => hchars c (h.mem_numberChars c hc)
  have hdigits : ∀ d ∈ digitChars, d ≠ '-' ∧ d ≠ '.' ∧ isFirstIndicator d none = false ∧
      isFirstIndicator '-' (some d) = false :=
    forall_mem_of_all (by decide)
  -- only a sign needs its follower, as `-` alone would be an item
  cases h with
  | @unsigned d rest hd hrest =>
    obtain ⟨hminus, hpoint, hfirst, -⟩ := hdigits d hd
    have hrest' := hasInnerIndicator_eq_false d fun c hc => hinner c (List.mem_cons_of_mem _ hc)
    simp [hasIndicator, hminus, hpoint, isFirstIndicator_of_none hfirst, hrest']
  | @negative d rest hd hrest =>
    obtain ⟨hminus, -, -, hfirst⟩ := hdigits d hd
    have hrest' := hasInnerIndicator_eq_false '-' fun c hc => hinner c (List.mem_cons_of_mem _ hc)
    simp [hasIndicator, hminus, hfirst, hrest']

/-- Numbers can stand plain. -/
theorem allowance_plain (h : LooksNumeric text) : (allowance text).plain = true := by
  -- the letters of a number are none of those that ask for quotes
  have hchars : ∀ c ∈ numberChars, isBreak c = false ∧ isPrintable c = true ∧ (c == ' ') = false :=
    forall_mem_of_all (by decide)
  have htext := fun c hc => hchars c (h.mem_numberChars c hc)
  have hbreaks : text.any isBreak = false :=
    List.any_eq_false.mpr fun c hc => by simp [(htext c hc).1]
  have hprint : text.any (!isPrintable ·) = false :=
    List.any_eq_false.mpr fun c hc => by simp [(htext c hc).2.1]
  have hpair : hasPair (· == ' ') isBreak text = false :=
    hasPair_eq_false fun c hc => (htext c hc).2.2
  have hfirst : text.head?.any (· == ' ') = false := by
    cases hhead : text.head? with
    | none => rfl
    | some c => exact (htext c (List.mem_of_mem_head? hhead)).2.2
  have hlast : text.getLast?.any (· == ' ') = false := by
    cases hlast : text.getLast? with
    | none => rfl
    | some c => exact (htext c (List.mem_of_getLast? hlast)).2.2
  simp only [allowance, hbreaks, hprint, hpair, hfirst, hlast, h.hasIndicator_eq_false]
  simp [h.ne_nil]

/-- What comes first in a number after its sign. -/
theorem firstDigit (h : LooksNumeric text) :
    (text.dropWhile (· == '-')).head?.any digitChars.contains = true := by
  have hdigits : ∀ d ∈ digitChars, (d == '-') = false :=
    forall_mem_of_all (by decide)
  cases h with
  | unsigned hd hrest => simp [hdigits _ hd, hd]
  | negative hd hrest => simp [hdigits _ hd, hd]

end LooksNumeric

/-! ## Words -/

/-- The words that spell nothing, null, a flag or a number without digits. -/
def words : List String :=
  ["", "~", "null", "Null", "NULL", "true", "True", "TRUE", "false", "False", "FALSE", ".inf",
    ".Inf", ".INF", "+.inf", "+.Inf", "+.INF", "-.inf", "-.Inf", "-.INF", ".nan", ".NaN", ".NAN"]

theorem LooksNumeric.not_mem_words {s : String} (h : LooksNumeric s.toList) : s ∉ words := by
  have hwords : ∀ w ∈ words,
      (w.toList.dropWhile (· == '-')).head?.any digitChars.contains = false := by
    decide
  intro hs
  have hword := hwords s hs
  rw [h.firstDigit] at hword
  exact absurd hword (by decide)

/-- What is none of the words is a number or a text. -/
theorem plainAtom_of_not_mem_words {s : String} (h : s ∉ words) :
    plainAtom s = match (integer? s.toList).bind integerAtom? with
      | some atom => atom
      | none => match if isPadded s.toList then none else float? s with
        | some x => .float x
        | none => .text s := by
  simp only [words, List.mem_cons, List.not_mem_nil, not_or, or_false] at h
  have hnull : ¬(decide (s = "") || isNull s) = true := by simp [isNull, h]
  have hbool : bool? s = none := by simp [bool?, h]
  unfold plainAtom
  rewrite [if_neg hnull, hbool]
  rfl

/-- What is none of the words is a floating point number only by its digits. -/
theorem float?_of_not_mem_words {s : String} (h : s ∉ words) :
    float? s = match s.toList with
      | '-' :: rest => finite? true rest
      | '+' :: rest => finite? false rest
      | rest => finite? false rest := by
  simp only [words, List.mem_cons, List.not_mem_nil, not_or, or_false] at h
  unfold float?
  rewrite [if_neg (by simp [h]), if_neg (by simp [h]), if_neg (by simp [h]), if_neg (by simp [h])]
  rfl

/-! ## Integers -/

/-- No digits of a number are needless zeros. -/
theorem hasLeadingZero_toDigits (n : ℕ) : hasLeadingZero (Nat.toDigits 10 n) = false := by
  by_cases hn : n = 0
  · subst hn
    rfl
  · have hhead := toDigits_head_ne_zero hn
    unfold hasLeadingZero
    split
    · next heq => exact absurd (by rw [heq]; rfl) hhead
    · rfl

theorem natural?_toDigits (n : ℕ) : natural? (Nat.toDigits 10 n) = some n := by
  have hdigits := isDigit_toDigits n
  have hzero := hasLeadingZero_toDigits n
  have hread := natOfDigits?_toDigits n
  generalize Nat.toDigits 10 n = digits at hdigits hzero hread
  unfold natural?
  -- no digit is the letter that asks for another base
  have hletter : ∀ c ∈ digits, c ≠ 'x' ∧ c ≠ 'o' ∧ c ≠ 'b' := by
    have hchars : ∀ c ∈ digitChars, c ≠ 'x' ∧ c ≠ 'o' ∧ c ≠ 'b' :=
      forall_mem_of_all (by decide)
    exact fun c hc => hchars c (mem_digitChars (hdigits c hc))
  rw [hzero, hread]
  split
  · exact absurd rfl (hletter 'x' (by simp)).1
  · exact absurd rfl (hletter 'o' (by simp)).2.1
  · exact absurd rfl (hletter 'b' (by simp)).2.2
  · rfl

theorem looksNumeric_int (n : ℤ) : LooksNumeric (toString n).toList := by
  have hdigits := isDigit_toDigits n.natAbs
  rw [toList_toString_int]
  cases h : Nat.toDigits 10 n.natAbs with
  | nil => exact absurd h Nat.toDigits_ne_nil
  | cons d rest =>
    rw [h] at hdigits
    have hd := mem_digitChars (hdigits d List.mem_cons_self)
    have hrest := fun c hc => mem_numberChars_of_isDigit (hdigits c (List.mem_cons_of_mem d hc))
    by_cases hn : n < 0
    · rw [if_pos hn]
      exact .negative hd hrest
    · rw [if_neg hn]
      exact .unsigned hd hrest

theorem integer?_negative (text : List Char) :
    integer? ('-' :: text) = (natural? text).map fun n : ℕ => -(n : ℤ) := by
  cases h : natural? text <;> simp [integer?, h]

theorem integer?_unsigned {text : List Char} (h : ∀ c ∈ text.head?, c ≠ '-' ∧ c ≠ '+') :
    integer? text = (natural? text).map fun n : ℕ => (n : ℤ) := by
  unfold integer?
  split
  · exact absurd rfl (h '-' rfl).1
  · exact absurd rfl (h '+' rfl).2
  · cases natural? text <;> rfl

/-- Digits begin with no sign. -/
theorem head?_of_isDigit {text : List Char} (h : ∀ c ∈ text.head?, c.isDigit = true) :
    ∀ c ∈ text.head?, c ≠ '-' ∧ c ≠ '+' := by
  have hdigits : ∀ c ∈ digitChars, c ≠ '-' ∧ c ≠ '+' :=
    forall_mem_of_all (by decide)
  exact fun c hc => hdigits c (mem_digitChars (h c hc))

theorem integer?_toString (n : ℤ) : integer? (toString n).toList = some n := by
  rw [toList_toString_int]
  by_cases hn : n < 0
  · have habs : -(n.natAbs : ℤ) = n := by omega
    rw [if_pos hn, List.singleton_append, integer?_negative, natural?_toDigits, Option.map_some,
      habs]
  · have habs : (n.natAbs : ℤ) = n := by omega
    have hhead := head?_of_isDigit fun c hc =>
      isDigit_toDigits n.natAbs c (List.mem_of_mem_head? hc)
    rw [if_neg hn, List.nil_append, integer?_unsigned hhead, natural?_toDigits, Option.map_some,
      habs]

theorem integerAtom?_of_isInt64 {n : ℤ} (h : IsInt64 n) : integerAtom? n = some (.int n) :=
  if_pos h

theorem plainAtom_int {n : ℤ} (h : IsInt64 n) : plainAtom (toString n) = .int n := by
  rw [plainAtom_of_not_mem_words (looksNumeric_int n).not_mem_words, integer?_toString,
    Option.bind_some, integerAtom?_of_isInt64 h]

theorem isInt64_of_integerAtom? {m n : ℤ} (h : integerAtom? m = some (.int n)) : IsInt64 n := by
  unfold integerAtom? at h
  split at h
  · next hrange =>
    cases h
    exact hrange
  · split at h <;> cases h

/-- The integers of plain scalars have at most 64 bits. -/
theorem isInt64_of_plainAtom {s : String} {n : ℤ} (h : plainAtom s = .int n) : IsInt64 n := by
  unfold plainAtom at h
  split at h
  · cases h
  split at h
  · cases h
  split at h
  · next atom hatom =>
    obtain ⟨m, -, hm⟩ := Option.bind_eq_some_iff.mp hatom
    rw [h] at hm
    exact isInt64_of_integerAtom? hm
  · split at h <;> cases h

theorem isInt64_of_untagged {s : Scalar} {n : ℤ} (h : s.untagged = .int n) : IsInt64 n := by
  unfold Scalar.untagged at h
  split at h
  · exact isInt64_of_plainAtom h
  · cases h

/-- The integers of scalars have at most 64 bits, under whatever tag. -/
theorem isInt64_of_atom {s : Scalar} {n : ℤ} (h : s.atom = .ok (.int n)) : IsInt64 n := by
  unfold Scalar.atom at h
  -- a case for each tag; only integers and what has no tag of its own can be integers
  split at h
  · exact isInt64_of_untagged (Except.ok.inj h)
  · split at h <;> cases h
  · split at h
    · next atom hatom =>
      obtain ⟨m, -, hm⟩ := Option.bind_eq_some_iff.mp hatom
      rw [Except.ok.inj h] at hm
      exact isInt64_of_integerAtom? hm
    · cases h
  · split at h <;> cases h
  · split at h <;> cases h
  · exact isInt64_of_untagged (Except.ok.inj h)
  · exact isInt64_of_untagged (Except.ok.inj h)
  · cases h

/-- A plain scalar that denotes a text denotes its own. -/
theorem plainAtom_text {s t : String} (h : plainAtom s = .text t) : t = s := by
  unfold plainAtom at h
  split at h
  · cases h
  split at h
  · cases h
  split at h
  · next atom hatom =>
    obtain ⟨m, -, hm⟩ := Option.bind_eq_some_iff.mp hatom
    rw [h] at hm
    unfold integerAtom? at hm
    split at hm
    · cases hm
    · split at hm <;> cases hm
  · split at h
    · cases h
    · cases h
      rfl

/-! ## Floating point numbers -/

/-- A point or an exponent keeps a text from spelling an integer. -/
theorem natural?_eq_none {text : List Char} {c : Char} (hc : c ∈ text) (hmark : c = '.' ∨ c = 'e')
    (h : ∀ c ∈ text, c ∈ numberChars) : natural? text = none := by
  have hletter : ∀ c ∈ text, c ≠ 'x' ∧ c ≠ 'o' ∧ c ≠ 'b' := by
    have hchars : ∀ c ∈ numberChars, c ≠ 'x' ∧ c ≠ 'o' ∧ c ≠ 'b' :=
      forall_mem_of_all (by decide)
    exact fun c hc => hchars c (h c hc)
  have hvalue : digitValue? 10 c = none := by rcases hmark with rfl | rfl <;> decide
  unfold natural?
  rw [natOfDigits?_eq_none hc hvalue, ite_self]
  split
  · exact absurd rfl (hletter 'x' (by simp)).1
  · exact absurd rfl (hletter 'o' (by simp)).2.1
  · exact absurd rfl (hletter 'b' (by simp)).2.2
  · rfl

theorem hasLeadingZero_eq_false {text : List Char} {c : Char} (hc : c ∈ text)
    (hmark : c = '.' ∨ c = 'e') : hasLeadingZero text = false := by
  unfold hasLeadingZero
  split
  · next d rest =>
    have hne : c ≠ '0' := by rcases hmark with rfl | rfl <;> decide
    have hmem : c ∈ d :: rest := (List.mem_cons.mp hc).resolve_left hne
    have hdigit : c.isDigit = false := by rcases hmark with rfl | rfl <;> decide
    exact List.all_eq_false.mpr ⟨c, hmem, by simp [hdigit]⟩
  · rfl

/-- The texts of finite numbers: a sign, then digits with a point or an exponent. -/
theorem text_finite (negative : Bool) (m : Magnitude) : ∃ p : Decimal.Spelling,
    ((Double.finite negative m).text .document).toList =
      (if negative then ['-'] else []) ++ p.text ∧
    Magnitude.ofDecimal? p.value = some m ∧
    ∃ c ∈ p.text, c = '.' ∨ c = 'e' := by
  obtain ⟨p, htext, hvalue, hmark⟩ := (m.shortest NumberFormat.document.tie).text_eq_spelling
  refine ⟨p, ?_, ?_, p.exists_mark hmark⟩
  · show (String.ofList (if negative then '-' :: (m.shortest NumberFormat.document.tie).text _
      else (m.shortest NumberFormat.document.tie).text _)).toList = _
    rw [String.toList_ofList, htext]
    cases negative <;> rfl
  · rw [Magnitude.ofDecimal?_congr hvalue, Magnitude.ofDecimal?_shortest]

theorem finite?_text {p : Decimal.Spelling} {m : Magnitude}
    (h : Magnitude.ofDecimal? p.value = some m) (negative : Bool) :
    finite? negative p.text = some (.finite negative m) := by
  unfold finite?
  rw [p.ofChars?_text]
  simp [Double.ofDecimal, h, Double.isFinite]

theorem mem_numberChars_of_spelling (p : Decimal.Spelling) : ∀ c ∈ p.text, c ∈ numberChars := by
  intro c hc
  rcases p.mem_text c hc with hdigit | rfl | rfl | rfl
  · exact mem_numberChars_of_isDigit hdigit
  all_goals decide

theorem looksNumeric_finite (negative : Bool) (m : Magnitude) :
    LooksNumeric ((Double.finite negative m).text .document).toList := by
  obtain ⟨p, htext, -, -⟩ := text_finite negative m
  have hhead := p.isDigit_head?
  have hchars := mem_numberChars_of_spelling p
  rw [htext]
  cases h : p.text with
  | nil => exact absurd h p.text_ne_nil
  | cons d rest =>
    rw [h] at hhead hchars
    have hd := mem_digitChars (hhead d rfl)
    have hrest := fun c hc => hchars c (List.mem_cons_of_mem d hc)
    cases negative with
    | true => exact .negative hd hrest
    | false => exact .unsigned hd hrest

/-- A text without a sign is all of it that counts. -/
theorem unsigned_eq_self {text : List Char} (h : ∀ c ∈ text.head?, c ≠ '-' ∧ c ≠ '+') :
    unsigned text = text := by
  unfold unsigned
  split
  · exact absurd rfl (h '-' rfl).1
  · exact absurd rfl (h '+' rfl).2
  · rfl

/-- A finite number is read back from its text in a document. -/
theorem plainAtom_finite (negative : Bool) (m : Magnitude) :
    plainAtom ((Double.finite negative m).text .document) = .float (.finite negative m) := by
  have hwords := (looksNumeric_finite negative m).not_mem_words
  obtain ⟨p, htext, hvalue, c, hc, hmark⟩ := text_finite negative m
  have hnatural := natural?_eq_none hc hmark (mem_numberChars_of_spelling p)
  have hsign := head?_of_isDigit p.isDigit_head?
  -- its point or exponent keeps it from being an integer, and from having needless zeros
  have hinteger : integer? ((Double.finite negative m).text .document).toList = none := by
    rw [htext]
    cases negative with
    | true => rw [if_pos rfl, List.singleton_append, integer?_negative, hnatural]; rfl
    | false => rw [if_neg (by decide), List.nil_append, integer?_unsigned hsign, hnatural]; rfl
  have hpadded : isPadded ((Double.finite negative m).text .document).toList = false := by
    have hzero := hasLeadingZero_eq_false hc hmark
    rw [htext]
    cases negative with
    | true => exact hzero
    | false =>
      unfold isPadded
      rw [if_neg (by decide), List.nil_append, unsigned_eq_self hsign, hzero]
  have hfloat : float? ((Double.finite negative m).text .document) =
      some (.finite negative m) := by
    rw [float?_of_not_mem_words hwords, htext]
    -- without a sign of its own the text begins with a digit, so none is read
    cases negative with
    | true => exact finite?_text hvalue true
    | false =>
      rw [if_neg (by decide), List.nil_append]
      split
      · next heq => exact absurd rfl (hsign '-' (by rw [heq]; rfl)).1
      · next heq => exact absurd rfl (hsign '+' (by rw [heq]; rfl)).2
      · exact finite?_text hvalue false
  rw [plainAtom_of_not_mem_words hwords, hinteger, hpadded, if_neg (by decide), hfloat]
  rfl

/-- A floating point number is read back from its text in a document, and that can stand plain. -/
theorem plainAtom_float (x : Double) : plainAtom (x.text .document) = .float x ∧
    (allowance (x.text .document).toList).plain = true := by
  cases x with
  | nan => decide
  | infinite negative => revert negative; decide
  | finite negative m =>
    exact ⟨plainAtom_finite negative m, (looksNumeric_finite negative m).allowance_plain⟩

end Provision.Yaml
