import Provision.Json.Source
import Provision.Proofs.Value

/-!
# Numbers of JSON documents

However a JSON document is spelled, the numbers in its tree are integers of at most 64 bits, or else
floating point numbers: digits beyond those make a number one of the latter.
-/

namespace Provision.Json

/-- The trees whose integers have at most 64 bits. -/
inductive Source.Bounded : Source → Prop
  | null : Bounded .null
  | bool (b : Bool) : Bounded (.bool b)
  | number {value : Option Atom} (h : ∀ n, value = some (.int n) → IsInt64 n) :
    Bounded (.number value)
  | text (spelled : Except Break String) : Bounded (.text spelled)
  | list {items : List Source} (h : ∀ item ∈ items, Bounded item) : Bounded (.list items)
  | table {entries : List (Except Break String × Source)} (h : ∀ entry ∈ entries, Bounded entry.2) :
    Bounded (.table entries)
  | cut (read skipped : Break) (afterComma : Bool) : Bounded (.cut read skipped afterComma)

/-- What the digits of a number come to: an integer, a floating point number, or nothing where they
are beyond the range of numbers. -/
inductive IsNumber : Option Atom → Prop
  | beyond : IsNumber none
  | int {n : ℤ} (h : IsInt64 n) : IsNumber (some (.int n))
  | float (x : Double) : IsNumber (some (.float x))

/-- The trees in which every number is what its digits come to. -/
inductive Source.Scanned : Source → Prop
  | null : Scanned .null
  | bool (b : Bool) : Scanned (.bool b)
  | number {value : Option Atom} (h : IsNumber value) : Scanned (.number value)
  | text (spelled : Except Break String) : Scanned (.text spelled)
  | list {items : List Source} (h : ∀ item ∈ items, Scanned item) : Scanned (.list items)
  | table {entries : List (Except Break String × Source)} (h : ∀ entry ∈ entries, Scanned entry.2) :
    Scanned (.table entries)
  | cut (read skipped : Break) (afterComma : Bool) : Scanned (.cut read skipped afterComma)

/-- What digits come to as an integer has at most 64 bits. -/
theorem IsNumber.isInt64 {value : Option Atom} (h : IsNumber value) {n : ℤ}
    (hn : value = some (.int n)) : IsInt64 n := by
  cases h with
  | beyond => cases hn
  | int h =>
    cases hn
    exact h
  | float x => cases hn

/-- Numbers that are what their digits come to are bounded. -/
theorem Source.Scanned.bounded {source : Source} (h : source.Scanned) : source.Bounded := by
  induction h with
  | null => exact .null
  | bool b => exact .bool b
  | number h => exact .number fun _ => h.isInt64
  | text spelled => exact .text spelled
  | list _ ih => exact .list ih
  | table _ ih => exact .table ih
  | cut read skipped afterComma => exact .cut read skipped afterComma

/-! ## Numbers -/

/-- Digits are taken into the significand only while it has at most 64 bits. -/
theorem significand_lt (value : ℕ) (h : value < Nat.pow 2 64) (digits : List Char) :
    (significand value digits).1 < Nat.pow 2 64 := by
  induction digits generalizing value with
  | nil => exact h
  | cons c rest ih =>
    unfold significand
    dsimp only
    split
    · next hnext => exact ih _ hnext
    · exact h

/-- A magnitude with a sign is a floating point number, if there is one. -/
theorem isNumber_map_signed (negative : Bool) (m : Option Magnitude) :
    IsNumber (m.map (signed negative)) := by
  cases m with
  | none => exact .beyond
  | some m => exact .float _

/-- A sign, digits, a fraction and an exponent come to a number. -/
theorem isNumber_number (negative : Bool) (whole : List Char) (fraction : Option (List Char))
    (exponent : Option ℤ) : IsNumber (number negative whole fraction exponent) := by
  have hvalue := significand_lt 0 (by decide) whole
  unfold number
  generalize significand 0 whole = leading at hvalue
  obtain ⟨value, dropped⟩ := leading
  dsimp only at hvalue ⊢
  -- all that is no integer is a rounded magnitude with a sign
  split
  · split
    · exact .int ⟨by omega, by omega⟩
    split
    · exact .int ⟨by omega, by omega⟩
    · exact isNumber_map_signed _ _
  · exact isNumber_map_signed _ _

/-! ## Outcomes -/

theorem scanned_cutAt (chars : List Char) (afterComma : Bool) : (cutAt chars afterComma).Scanned :=
  .cut _ _ _

/-- A word is read as its value or cut off. -/
theorem scanned_word {value : Source} (h : value.Scanned) (word chars : List Char) :
    Source.Scanned (Json.word value word chars).1 := by
  induction word generalizing chars with
  | nil => exact h
  | cons expected more ih =>
    cases chars with
    | nil => exact .cut _ _ _
    | cons c rest =>
      unfold Json.word
      split
      · exact ih rest
      · exact .cut _ _ _

/-- What is read from the exponent on is a number or cut off. -/
theorem scanned_exponentPart (negative : Bool) (whole : List Char) (fraction : Option (List Char))
    (chars : List Char) : Source.Scanned (exponentPart negative whole fraction chars).1 := by
  unfold exponentPart
  split
  · dsimp only
    split
    · exact .cut _ _ _
    · exact .number (isNumber_number _ _ _ _)
  · dsimp only
    split
    · exact .cut _ _ _
    · exact .number (isNumber_number _ _ _ _)
  · exact .number (isNumber_number _ _ _ _)

/-- What is read from the point on is a number or cut off. -/
theorem scanned_fractionPart (negative : Bool) (whole chars : List Char) :
    Source.Scanned (fractionPart negative whole chars).1 := by
  unfold fractionPart
  split
  · dsimp only
    split
    · exact .cut _ _ _
    · exact scanned_exponentPart _ _ _ _
  · exact scanned_exponentPart _ _ _ _

/-- What starts as a number is a number or cut off. -/
theorem scanned_numberPart (negative : Bool) (chars : List Char) :
    Source.Scanned (numberPart negative chars).1 := by
  unfold numberPart
  split
  · split
    · exact .cut _ _ _
    · exact scanned_fractionPart _ _ _
  · dsimp only
    split
    · exact .cut _ _ _
    · exact scanned_fractionPart _ _ _

/-! ## Values -/

/-- The numbers of all items are what their digits come to. -/
theorem scanned_itemsBy {read : List Char → Outcome} (h : ∀ chars, Source.Scanned (read chars).1)
    (fuel : ℕ) (first : Bool) (chars : List Char) :
    ∀ item ∈ (itemsBy read fuel first chars).1, Source.Scanned item := by
  induction fuel generalizing first chars with
  | zero => simp [itemsBy]
  | succ fuel ih =>
    unfold itemsBy
    split
    · simp
    · dsimp only
      split
      · exact List.forall_mem_singleton.mpr (.cut _ _ _)
      · exact List.forall_mem_singleton.mpr (.cut _ _ _)
      · exact List.forall_mem_singleton.mpr (.cut _ _ _)
      · next more _ _ _ =>
        -- the item stays, whether or not the reading goes on behind it
        have hitem := h more
        split
        · exact List.forall_mem_singleton.mpr (.cut _ _ _)
        · next hread =>
          rw [hread] at hitem
          exact List.forall_mem_singleton.mpr hitem
        · next hread =>
          rw [hread] at hitem
          exact List.forall_mem_cons.mpr ⟨hitem, ih false _⟩

/-- The numbers of all members are what their digits come to. -/
theorem scanned_entriesBy {read : List Char → Outcome}
    (h : ∀ chars, Source.Scanned (read chars).1) (fuel : ℕ) (first : Bool) (chars : List Char) :
    ∀ entry ∈ (entriesBy read fuel first chars).1, Source.Scanned entry.2 := by
  induction fuel generalizing first chars with
  | zero => simp [entriesBy]
  | succ fuel ih =>
    -- where the text breaks off, the entry read so far holds a value that is cut
    have hstop : ∀ (read skipped : Break), ∀ entry ∈
        [((Except.error read : Except Break String), Source.cut read skipped false)],
        Source.Scanned entry.2 :=
      fun read skipped => List.forall_mem_singleton.mpr (.cut _ _ _)
    unfold entriesBy
    dsimp only
    split
    · simp
    · split
      · exact hstop _ _
      · split
        · exact hstop _ _
        · exact hstop _ _
        · split
          · next rest _ =>
            have hitem := h (skipBlanks rest)
            split
            · next hread =>
              rw [hread] at hitem
              exact List.forall_mem_singleton.mpr hitem
            · next hread =>
              rw [hread] at hitem
              exact List.forall_mem_cons.mpr ⟨hitem, ih false _⟩
          · exact List.forall_mem_singleton.mpr (scanned_cutAt _ _)
      · exact hstop _ _

/-- Every number of a value is what its digits come to. -/
theorem scanned_value (fuel : ℕ) (chars : List Char) : Source.Scanned (value fuel chars).1 := by
  induction fuel generalizing chars with
  | zero => exact .cut _ _ _
  | succ fuel ih =>
    unfold value
    split
    · exact scanned_cutAt _ _
    · exact scanned_word .null _ _
    · exact scanned_word (.bool true) _ _
    · exact scanned_word (.bool false) _ _
    · exact scanned_numberPart _ _
    · split
      · exact .cut _ _ _
      · exact .cut _ _ _
      · exact .text _
    · exact .list (scanned_itemsBy ih fuel true _)
    · exact .table (scanned_entriesBy ih fuel true _)
    · split
      · exact scanned_numberPart _ _
      · exact .cut _ _ _

/-- Every number of a document is what its digits come to. -/
theorem scanned_root (text : String) : (Document.ofText text).root.Scanned := by
  have hroot := scanned_value ((skipBlanks text.toList).length + 1) (skipBlanks text.toList)
  unfold Document.ofText
  dsimp only
  split
  · next heq =>
    rw [heq] at hroot
    exact hroot
  · next heq =>
    rw [heq] at hroot
    exact hroot

/-- Every integer of a document has at most 64 bits. -/
theorem bounded_root (text : String) : (Document.ofText text).root.Bounded :=
  (scanned_root text).bounded

end Provision.Json
