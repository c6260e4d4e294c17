import Provision.Proofs.Json.NumberText
import Provision.Proofs.Json.Sorted

/-!
# JSON texts read back

The text that a tree is printed as is read as that tree: everything is there, in the order in which
the tree has it, and nothing is left behind the root (`Document.ofText_pretty`). A value is read up
to where its text ends, whatever a list or an object goes on with; the reader's fuel is the number of
characters, and every part of a text is shorter than the whole.
-/

namespace Provision.Json

/-! ## What a tree is read as -/

/-- What is read from the text of a tree. A number that is no integer is read by its digits, which
denote it. -/
inductive SpelledAs : Json → Source → Prop
  | null : SpelledAs .null .null
  | bool (b : Bool) : SpelledAs (.bool b) (.bool b)
  | int (n : ℤ) : SpelledAs (.int n) (.number (some (.int n)))
  | float (negative : Bool) {m : Magnitude} (p : Decimal.Spelling)
      (h : Magnitude.ofDecimal? p.value = some m) :
    SpelledAs (.float (.finite negative m))
      (.number (number negative p.whole p.fraction p.exponent))
  | text (s : String) : SpelledAs (.text s) (.text (.ok s))
  | list {items : List Json} {sources : List Source} (h : List.Forall₂ SpelledAs items sources) :
    SpelledAs (.list items) (.list sources)
  | object {members : List (String × Json)} {sources : List Source}
      (h : List.Forall₂ SpelledAs (members.map (·.2)) sources) :
    SpelledAs (.object members) (.table ((members.map fun member => .ok member.1).zip sources))

/-! ## Blanks -/

/-- Whether a character stands between values. -/
def isBlank (c : Char) : Bool :=
  c == ' ' || c == '\n' || c == '\t' || c == '\r'

theorem skipBlanks_cons {c : Char} (h : isBlank c = false) (rest : List Char) :
    skipBlanks (c :: rest) = c :: rest :=
  List.dropWhile_cons_of_neg (by simpa [isBlank] using h)

/-- A line break and its indentation are passed over. -/
theorem skipBlanks_newline (depth : ℕ) (rest : List Char) :
    skipBlanks (newline depth ++ rest) = skipBlanks rest := by
  refine List.dropWhile_append_of_pos fun c hc => ?_
  rcases List.mem_cons.mp hc with rfl | hc
  · rfl
  · rw [List.eq_of_mem_replicate hc]
    rfl

/-! ## Texts -/

/-- Every control character has an escape of four digits that spell it. -/
theorem fourHex?_hexDigits {n : ℕ} (hn : n < 0x20) (rest : List Char) :
    fourHex? (hexDigits n ++ rest) = some (n, rest) := by
  have hdigits : ∀ n < 0x20, ∃ a b c d, hexDigits n = [a, b, c, d] ∧
      natOfDigits? 16 [a, b, c, d] = some n := by
    intro n hn
    interval_cases n <;> exact ⟨_, _, _, _, rfl, by decide⟩
  obtain ⟨a, b, c, d, hchars, hread⟩ := hdigits n hn
  rw [hchars]
  show (natOfDigits? 16 [a, b, c, d]).map (·, rest) = _
  rw [hread]
  rfl

/-- A code unit below the surrogates is a character of its own. -/
theorem codeUnit_of_lt {unit : ℕ} (h : unit < 0xd800) (rest : List Char) :
    codeUnit unit rest = (.ok (Char.ofNat unit), rest) := by
  have hhigh : isHighSurrogate unit = false := by
    unfold isHighSurrogate
    rw [decide_eq_false (by omega), Bool.false_and]
  have hlow : isLowSurrogate unit = false := by
    unfold isLowSurrogate
    rw [decide_eq_false (by omega), Bool.false_and]
  unfold codeUnit
  rw [hhigh, hlow, if_neg Bool.false_ne_true, if_neg Bool.false_ne_true]

/-- An escape of a code unit stands for its character. -/
theorem unquoteBy_codeUnit {c : Char} {unit : ℕ} {chars rest rest' : List Char}
    (hunit : fourHex? chars = some (unit, rest)) (hc : codeUnit unit rest = (.ok c, rest'))
    (fuel : ℕ) (before : List Char) :
    unquoteBy (fuel + 1) (.ok before) ('\\' :: 'u' :: chars) =
      unquoteBy fuel (.ok (c :: before)) rest' := by
  conv_lhs => unfold unquoteBy
  simp only [hunit, hc]
  rfl

/-- A character that is no control character, quote or backslash stands for itself. -/
theorem unquoteBy_of_ne {c : Char} (hquote : c ≠ '"') (hbackslash : c ≠ '\\')
    (hcontrol : ¬c.toNat < 0x20) (fuel : ℕ) (before rest : List Char) :
    unquoteBy (fuel + 1) (.ok before) (c :: rest) = unquoteBy fuel (.ok (c :: before)) rest := by
  conv_lhs => unfold unquoteBy
  dsimp only
  split
  · next heq => cases heq
  · next heq => exact absurd (List.cons.inj heq).1 hquote
  · next heq => exact absurd (List.cons.inj heq).1 hbackslash
  · next heq => exact absurd (List.cons.inj heq).1 hbackslash
  · next heq => exact absurd (List.cons.inj heq).1 hbackslash
  · next heq =>
    obtain ⟨rfl, rfl⟩ := List.cons.inj heq
    rw [if_neg hcontrol]
    rfl

/-- A character is read from the text that it has within quotes. -/
theorem unquoteBy_escapedChar (c : Char) (fuel : ℕ) (before rest : List Char) :
    unquoteBy (fuel + 1) (.ok before) (escapedChar c ++ rest) =
      unquoteBy fuel (.ok (c :: before)) rest := by
  unfold escapedChar
  split
  case h_8 _ hquote hbackslash _ _ _ _ _ =>
    by_cases hcontrol : c.toNat < 0x20
    · rw [if_pos hcontrol]
      have hsmall : c.toNat < 0xd800 := by omega
      have hunit := codeUnit_of_lt hsmall rest
      rw [Char.ofNat_toNat] at hunit
      exact unquoteBy_codeUnit (fourHex?_hexDigits hcontrol rest) hunit fuel before
    · rw [if_neg hcontrol]
      exact unquoteBy_of_ne hquote hbackslash hcontrol fuel before rest
  all_goals rfl

/-- So the characters of a text are, up to its quote. -/
theorem unquoteBy_escaped (chars before rest : List Char) {fuel : ℕ} (hfuel : chars.length < fuel) :
    unquoteBy fuel (.ok before) (chars.flatMap escapedChar ++ '"' :: rest) =
      (.ok (String.ofList (before.reverse ++ chars)), .ok rest) := by
  induction chars generalizing before fuel with
  | nil =>
    obtain ⟨fuel, rfl⟩ := Nat.exists_eq_add_one_of_ne_zero (Nat.ne_zero_of_lt hfuel)
    rw [List.append_nil]
    rfl
  | cons c chars ih =>
    obtain ⟨fuel, rfl⟩ := Nat.exists_eq_add_one_of_ne_zero (Nat.ne_zero_of_lt hfuel)
    rw [List.flatMap_cons, List.append_assoc, unquoteBy_escapedChar,
      ih (c :: before) (Nat.lt_of_succ_lt_succ hfuel), List.reverse_cons, List.append_assoc]
    rfl

/-- A text is read from the text in quotes. -/
theorem unquote_escaped (s : String) (rest : List Char) {fuel : ℕ}
    (hfuel : s.toList.length < fuel) :
    unquote fuel (s.toList.flatMap escapedChar ++ '"' :: rest) = (.ok s, .ok rest) := by
  unfold unquote
  rw [unquoteBy_escaped s.toList [] rest hfuel, List.reverse_nil, List.nil_append,
    String.ofList_toList]

/-- A quoted text is its escaped characters up to the closing quote. -/
theorem quoted_append (s : String) (rest : List Char) :
    quoted s ++ rest = '"' :: (s.toList.flatMap escapedChar ++ '"' :: rest) := by
  unfold quoted
  rw [List.cons_append, List.cons_append, List.append_assoc]
  rfl

/-- A quoted text is longer than what is quoted. -/
theorem length_lt_length_quoted (s : String) : s.toList.length < (quoted s).length := by
  have hchars : ∀ chars : List Char, chars.length ≤ (chars.flatMap escapedChar).length := by
    intro chars
    induction chars with
    | nil => exact le_refl _
    | cons c chars ih =>
      have hc : 0 < (escapedChar c).length := by
        unfold escapedChar
        split
        case h_8 => split <;> exact Nat.zero_lt_succ _
        all_goals exact Nat.zero_lt_succ _
      rw [List.flatMap_cons, List.length_append, List.length_cons]
      omega
  unfold quoted
  rw [List.cons_append, List.length_cons, List.length_append]
  have htext := hchars s.toList
  omega

/-! ## Values -/

/-- Whether a value begins with a character. -/
def StartsValue (c : Char) : Prop :=
  c.isDigit = true ∨ c ∈ ['n', 't', 'f', '-', '"', '[', '\x7b']

/-- What comes before a value or behind it is nothing that a value begins with. -/
theorem StartsValue.ne {c : Char} (h : StartsValue c) : isBlank c = false ∧ c ≠ ']' := by
  rcases h with hdigit | hmem
  · have hne : ∀ d, d.isDigit = false → c ≠ d := by
      rintro d hd rfl
      rw [hdigit] at hd
      cases hd
    refine ⟨?_, hne ']' rfl⟩
    unfold isBlank
    simp only [beq_eq_false_iff_ne.mpr (hne ' ' rfl), beq_eq_false_iff_ne.mpr (hne '\n' rfl),
      beq_eq_false_iff_ne.mpr (hne '\t' rfl), beq_eq_false_iff_ne.mpr (hne '\r' rfl), Bool.or_self]
  · simp only [List.mem_cons, List.not_mem_nil, or_false] at hmem
    rcases hmem with rfl | rfl | rfl | rfl | rfl | rfl | rfl <;> exact ⟨rfl, by decide⟩

/-- Whether a text is read as a value, wherever it stands in a document. -/
structure ReadsAs (read : List Char → Outcome) (text : List Char) (source : Source) : Prop where
  starts : ∃ c, StartsValue c ∧ text.head? = some c
  whole : ∀ early skipped afterComma, source ≠ .cut early skipped afterComma
  reads : ∀ rest, StopsNumber rest → read (text ++ rest) = (source, some rest)

variable {read : List Char → Outcome} {text rest : List Char} {source : Source} {fuel depth : ℕ}

/-- An item is read where a list begins or goes on, and then what is behind it. -/
theorem itemsBy_item (first : Bool) (h : ReadsAs read text source) (hrest : StopsNumber rest) :
    itemsBy read (fuel + 1) first
      ((if first then [] else [',']) ++ (newline depth ++ (text ++ rest))) =
      (source :: (itemsBy read fuel false rest).1, (itemsBy read fuel false rest).2) := by
  obtain ⟨c, hc, hhead⟩ := h.starts
  obtain ⟨hblank, hend⟩ := hc.ne
  have hreads := h.reads rest hrest
  obtain ⟨more, hmore⟩ : ∃ more, text ++ rest = c :: more := by
    obtain ⟨more, rfl⟩ := List.head?_eq_some_iff.mp hhead
    exact ⟨more ++ rest, rfl⟩
  rw [hmore] at hreads ⊢
  have hskip : skipBlanks (newline depth ++ c :: more) = c :: more := by
    rw [skipBlanks_newline, skipBlanks_cons hblank]
  conv_lhs => unfold itemsBy
  -- behind the comma, if there is to be one, the item is next
  cases first
  case' true =>
    simp only [if_true, List.nil_append, hskip]
    split
    · next heq => exact absurd (List.cons.inj heq).1 hend
  case' false =>
    have hcomma : skipBlanks (',' :: (newline depth ++ c :: more)) =
        ',' :: (newline depth ++ c :: more) := rfl
    simp only [if_false, Bool.false_eq_true, List.cons_append, List.nil_append, hcomma]
    split
    · next heq => cases heq
    simp only [hskip]
  all_goals
    split
    · next heq => cases heq
    · next heq => cases heq
    · next heq => exact absurd (List.cons.inj (Option.some.inj heq)).1 hend
    next heq =>
    obtain rfl := Option.some.inj heq
    rw [hreads]
    cases source <;> first | rfl | exact absurd rfl (h.whole _ _ _)

/-- A member is read where an object begins or goes on, and then what is behind it. -/
theorem entriesBy_member (first : Bool) {name : String} (hname : name.toList.length ≤ fuel)
    (h : ReadsAs read text source) (hrest : StopsNumber rest) :
    entriesBy read (fuel + 1) first
      ((if first then [] else [',']) ++
        (newline depth ++ (quoted name ++ ':' :: ' ' :: (text ++ rest)))) =
      ((.ok name, source) :: (entriesBy read fuel false rest).1,
        (entriesBy read fuel false rest).2) := by
  obtain ⟨c, hc, hhead⟩ := h.starts
  obtain ⟨hblank, -⟩ := hc.ne
  have hreads := h.reads rest hrest
  obtain ⟨more, hmore⟩ : ∃ more, text ++ rest = c :: more := by
    obtain ⟨more, rfl⟩ := List.head?_eq_some_iff.mp hhead
    exact ⟨more ++ rest, rfl⟩
  rw [hmore] at hreads ⊢
  have hvalue : skipBlanks (' ' :: c :: more) = c :: more := skipBlanks_cons hblank more
  have hcolon : skipBlanks (':' :: ' ' :: c :: more) = ':' :: ' ' :: c :: more := rfl
  have hkey := unquote_escaped name (':' :: ' ' :: c :: more) (Nat.lt_succ_of_le hname)
  rw [quoted_append]
  generalize name.toList.flatMap escapedChar ++ '"' :: ':' :: ' ' :: c :: more = chars at hkey ⊢
  have hskip : skipBlanks (newline depth ++ '"' :: chars) = '"' :: chars := by
    rw [skipBlanks_newline, skipBlanks_cons rfl]
  conv_lhs => unfold entriesBy
  -- behind the comma, if there is to be one, the key is next
  cases first
  case' true =>
    simp only [if_true, List.nil_append, hskip]
    split
    · next heq => cases heq
  case' false =>
    have hcomma : skipBlanks (',' :: (newline depth ++ '"' :: chars)) =
        ',' :: (newline depth ++ '"' :: chars) := rfl
    simp only [if_false, Bool.false_eq_true, List.cons_append, List.nil_append, hcomma]
    split
    · next heq => cases heq
    simp only [hskip]
  all_goals
    simp only [hkey, hcolon, hvalue, hreads]

/-! ## Trees -/

/-- Whether the text of a tree is read with any fuel beyond its length. -/
def ReadsBack (tree : Json) (source : Source) : Prop :=
  ∀ depth fuel, (tree.chars depth).length < fuel →
    ReadsAs (value fuel) (tree.chars depth) source

section Tails

variable {size outer : ℕ}

/-- No number goes on with what stands behind the items of a list. -/
theorem stopsNumber_restItems (items : List Json) (rest : List Char) :
    StopsNumber (restItems depth items ++ (newline outer ++ rest)) := by
  rintro c hc
  cases items <;> cases hc <;> exact ⟨rfl, by decide⟩

/-- No number goes on with what follows a member. -/
theorem stopsNumber_restMembers (members : List (String × Json)) (rest : List Char) :
    StopsNumber (restMembers depth members ++ (newline outer ++ rest)) := by
  rintro c hc
  cases members <;> cases hc <;> exact ⟨rfl, by decide⟩

/-- Another item comes behind a comma and on a line of its own. -/
theorem restItems_cons (item : Json) (items : List Json) :
    restItems depth (item :: items) =
      [','] ++ (newline depth ++ (item.chars depth ++ restItems depth items)) := by
  simp [restItems]

/-- Another member comes behind a comma and on a line of its own. -/
theorem restMembers_cons (name : String) (tree : Json) (members : List (String × Json)) :
    restMembers depth ((name, tree) :: members) = [','] ++ (newline depth ++
      (quoted name ++ ':' :: ' ' :: (tree.chars depth ++ restMembers depth members))) := by
  simp [restMembers]

/-- The items of a list after the first are read up to its bracket. -/
theorem itemsBy_restItems {items : List Json} {sources : List Source}
    (h : List.Forall₂ ReadsBack items sources) (hsize : (restItems depth items).length < size)
    (hfuel : (restItems depth items).length < fuel) (rest : List Char) :
    itemsBy (value size) fuel false (restItems depth items ++ (newline outer ++ ']' :: rest)) =
      (sources, some rest) := by
  induction h generalizing fuel with
  | nil =>
    obtain ⟨fuel, rfl⟩ := Nat.exists_eq_add_one_of_ne_zero (Nat.ne_zero_of_lt hfuel)
    show itemsBy _ _ _ (newline outer ++ ']' :: rest) = _
    unfold itemsBy
    rewrite [skipBlanks_newline, skipBlanks_cons rfl]
    rfl
  | @cons item source items sources hitem _ ih =>
    obtain ⟨fuel, rfl⟩ := Nat.exists_eq_add_one_of_ne_zero (Nat.ne_zero_of_lt hfuel)
    rw [restItems_cons] at hsize hfuel ⊢
    simp only [List.length_append, List.length_singleton] at hsize hfuel
    rw [List.append_assoc, List.append_assoc, List.append_assoc]
    refine (itemsBy_item false (hitem depth size (by omega)) (stopsNumber_restItems items _)).trans ?_
    rw [ih (by omega) (by omega)]

/-- The members of an object after the first are read up to its brace. -/
theorem entriesBy_restMembers {members : List (String × Json)} {sources : List Source}
    (h : List.Forall₂ ReadsBack (members.map (·.2)) sources)
    (hsize : (restMembers depth members).length < size)
    (hfuel : (restMembers depth members).length < fuel) (rest : List Char) :
    entriesBy (value size) fuel false (restMembers depth members ++ (newline outer ++ '\x7d' :: rest)) =
      ((members.map fun member => .ok member.1).zip sources, some rest) := by
  induction members generalizing sources fuel with
  | nil =>
    obtain ⟨fuel, rfl⟩ := Nat.exists_eq_add_one_of_ne_zero (Nat.ne_zero_of_lt hfuel)
    show entriesBy _ _ _ (newline outer ++ '\x7d' :: rest) = _
    unfold entriesBy
    rewrite [skipBlanks_newline, skipBlanks_cons rfl]
    rfl
  | cons member members ih =>
    obtain ⟨name, tree⟩ := member
    obtain ⟨fuel, rfl⟩ := Nat.exists_eq_add_one_of_ne_zero (Nat.ne_zero_of_lt hfuel)
    rw [List.map_cons] at h
    rcases h with _ | ⟨hvalue, hmembers⟩
    have htree : tree.ReadsBack _ := hvalue
    have hname := length_lt_length_quoted name
    rw [restMembers_cons] at hsize hfuel ⊢
    simp only [List.length_append, List.length_cons] at hsize hfuel
    simp only [List.append_assoc, List.cons_append]
    refine (entriesBy_member false (by omega) (htree depth size (by omega))
      (stopsNumber_restMembers members _)).trans ?_
    rw [ih hmembers (by omega) (by omega)]
    rfl

end Tails

/-- A tree is read back if its text is, behind the first character. -/
theorem readsBack_of_forall {tree : Json} {source : Source}
    (hwhole : ∀ early skipped afterComma, source ≠ .cut early skipped afterComma)
    (h : ∀ depth, ∃ c more, StartsValue c ∧ tree.chars depth = c :: more ∧
      ∀ fuel rest, more.length < fuel → StopsNumber rest →
        value (fuel + 1) (c :: (more ++ rest)) = (source, some rest)) : tree.ReadsBack source := by
  intro depth fuel hfuel
  obtain ⟨c, more, hc, hmore, hreads⟩ := h depth
  rw [hmore] at hfuel ⊢
  obtain ⟨fuel, rfl⟩ := Nat.exists_eq_add_one_of_ne_zero (Nat.ne_zero_of_lt hfuel)
  exact ⟨⟨c, hc, rfl⟩, hwhole, fun rest hrest =>
    hreads fuel rest (Nat.lt_of_succ_lt_succ hfuel) hrest⟩

/-- What starts with a digit is read as a number. -/
theorem value_of_isDigit {c : Char} (hc : c.isDigit = true) (fuel : ℕ) (chars : List Char) :
    value (fuel + 1) (c :: chars) = numberPart false (c :: chars) := by
  have hne : ∀ d, d.isDigit = false → c ≠ d := by
    rintro d hd rfl
    rw [hc] at hd
    cases hd
  unfold value
  simp [hc, hne]

/-- Digits are read as the number that they spell, with its sign. -/
theorem readsBack_signedText {tree : Json} {negative : Bool} {p : Decimal.Spelling}
    (hp : p.IsStrict)
    (htree : ∀ depth, tree.chars depth = (if negative then ['-'] else []) ++ p.signedText) :
    tree.ReadsBack (.number (number negative p.whole p.fraction p.exponent)) := by
  refine readsBack_of_forall nofun fun depth => ?_
  rw [htree]
  -- the sign decides how the reader enters the number
  cases negative with
  | true =>
    refine ⟨'-', p.signedText, .inr (by decide), rfl, fun fuel rest _ hrest => ?_⟩
    exact numberPart_signedText true hp hrest
  | false =>
    obtain ⟨d, digits, hdigits⟩ := List.exists_cons_of_ne_nil p.whole_ne_nil
    have hd : d.isDigit = true := by
      apply p.isDigit_whole
      rw [hdigits]
      exact List.mem_cons_self
    have htext : p.signedText = d :: p.signedText.tail := by
      unfold Decimal.Spelling.signedText
      rw [hdigits]
      rfl
    refine ⟨d, p.signedText.tail, .inl hd, htext, fun fuel rest _ hrest => ?_⟩
    rw [value_of_isDigit hd, ← List.cons_append, ← htext]
    exact numberPart_signedText false hp hrest

/-- An integer of at most 64 bits is read back. -/
theorem readsBack_int {n : ℤ} (h : IsInt64 n) : (Json.int n).ReadsBack (.number (some (.int n))) := by
  have htree : ∀ depth, (Json.int n).chars depth =
      (if decide (n < 0) then ['-'] else []) ++ (Decimal.Spelling.ofNat n.natAbs).signedText := by
    intro depth
    show (toString n).toList = _
    rw [toList_toString_int, Decimal.Spelling.signedText_ofNat]
    simp only [decide_eq_true_eq]
  have hread := readsBack_signedText (Decimal.Spelling.isStrict_ofNat n.natAbs) htree
  have hnumber : number (decide (n < 0)) (Decimal.Spelling.ofNat n.natAbs).whole
      (Decimal.Spelling.ofNat n.natAbs).fraction (Decimal.Spelling.ofNat n.natAbs).exponent =
      some (.int n) := number_toDigits h
  rw [hnumber] at hread
  exact hread

theorem readsBack_text (s : String) : (Json.text s).ReadsBack (.text (.ok s)) := by
  refine readsBack_of_forall nofun fun depth => ?_
  refine ⟨'"', s.toList.flatMap escapedChar ++ ['"'], .inr (by decide), rfl, ?_⟩
  intro fuel rest hfuel _
  have hlength := length_lt_length_quoted s
  have hquoted : (quoted s).length = (s.toList.flatMap escapedChar ++ ['"']).length + 1 := rfl
  have hshort : s.toList.length < fuel + 1 := by omega
  have hkey := unquote_escaped s rest hshort
  rw [List.append_assoc]
  unfold value
  simp only [List.singleton_append, hkey]

/-- What opens with a bracket is read as a list. -/
theorem value_list {chars : List Char} {sources : List Source} {found : Option (List Char)}
    (h : itemsBy (value fuel) fuel true chars = (sources, found)) :
    value (fuel + 1) ('[' :: chars) = (.list sources, found) := by
  conv_lhs => unfold value
  simp only [h]

/-- What opens with a brace is read as an object. -/
theorem value_table {chars : List Char} {entries : List (Except Break String × Source)}
    {found : Option (List Char)}
    (h : entriesBy (value fuel) fuel true chars = (entries, found)) :
    value (fuel + 1) ('\x7b' :: chars) = (.table entries, found) := by
  conv_lhs => unfold value
  simp only [h]

theorem readsBack_list {items : List Json} {sources : List Source}
    (h : List.Forall₂ ReadsBack items sources) : (Json.list items).ReadsBack (.list sources) := by
  refine readsBack_of_forall nofun fun depth => ?_
  cases h with
  | nil =>
    refine ⟨'[', [']'], .inr (by decide), rfl, fun fuel rest hfuel _ => ?_⟩
    obtain ⟨fuel, rfl⟩ := Nat.exists_eq_add_one_of_ne_zero (Nat.ne_zero_of_lt hfuel)
    rfl
  | @cons item source items sources hitem hitems =>
    refine ⟨'[', newline (depth + 1) ++ item.chars (depth + 1) ++ restItems (depth + 1) items ++
      newline depth ++ [']'], .inr (by decide), rfl, fun fuel rest hfuel _ => ?_⟩
    obtain ⟨fuel, rfl⟩ := Nat.exists_eq_add_one_of_ne_zero (Nat.ne_zero_of_lt hfuel)
    simp only [List.length_append, List.length_singleton] at hfuel
    simp only [List.append_assoc]
    apply value_list
    refine (itemsBy_item true (hitem (depth + 1) (fuel + 1) (by omega))
      (stopsNumber_restItems items _)).trans ?_
    rw [List.singleton_append, itemsBy_restItems hitems (by omega) (by omega)]

/-- An object is read back with its names if its members are. -/
theorem readsBack_object {members : List (String × Json)} {sources : List Source}
    (h : List.Forall₂ ReadsBack (members.map (·.2)) sources) : (Json.object members).ReadsBack
      (.table ((members.map fun member => .ok member.1).zip sources)) := by
  refine readsBack_of_forall nofun fun depth => ?_
  cases members with
  | nil =>
    refine ⟨'\x7b', ['\x7d'], .inr (by decide), rfl, fun fuel rest hfuel _ => ?_⟩
    obtain ⟨fuel, rfl⟩ := Nat.exists_eq_add_one_of_ne_zero (Nat.ne_zero_of_lt hfuel)
    rfl
  | cons member members =>
    obtain ⟨name, tree⟩ := member
    rw [List.map_cons] at h
    rcases h with _ | ⟨hvalue, hmembers⟩
    have htree : tree.ReadsBack _ := hvalue
    have hname := length_lt_length_quoted name
    refine ⟨'\x7b', newline (depth + 1) ++ quoted name ++ ':' :: ' ' :: tree.chars (depth + 1) ++
      restMembers (depth + 1) members ++ newline depth ++ ['\x7d'], .inr (by decide), ?_, ?_⟩
    · simp [chars]
    intro fuel rest hfuel _
    obtain ⟨fuel, rfl⟩ := Nat.exists_eq_add_one_of_ne_zero (Nat.ne_zero_of_lt hfuel)
    simp only [List.length_append, List.length_cons, List.length_nil] at hfuel
    simp only [List.append_assoc, List.cons_append]
    -- the first member stands behind the brace, each further one behind a comma
    apply value_table
    refine (entriesBy_member true (by omega) (htree (depth + 1) (fuel + 1) (by omega))
      (stopsNumber_restMembers members _)).trans ?_
    rw [List.nil_append, entriesBy_restMembers hmembers (by omega) (by omega)]
    rfl

theorem exists_forall₂_of_forall {α β : Type} {R : α → β → Prop} {as : List α}
    (h : ∀ a ∈ as, ∃ b, R a b) : ∃ bs, List.Forall₂ R as bs := by
  induction as with
  | nil => exact ⟨[], .nil⟩
  | cons a as ih =>
    obtain ⟨⟨b, hb⟩, hrest⟩ := List.forall_mem_cons.mp h
    obtain ⟨bs, hbs⟩ := ih hrest
    exact ⟨b :: bs, .cons hb hbs⟩

/-- Whatever documents can hold is read back from its text. -/
theorem exists_readsBack {tree : Json} (h : tree.WellFormed) :
    ∃ source, tree.SpelledAs source ∧ tree.ReadsBack source := by
  induction h with
  | null =>
    refine ⟨.null, .null, readsBack_of_forall nofun fun depth => ?_⟩
    exact ⟨'n', ['u', 'l', 'l'], .inr (by decide), rfl, fun fuel rest _ _ => rfl⟩
  | bool b =>
    refine ⟨.bool b, .bool b, readsBack_of_forall nofun fun depth => ?_⟩
    cases b with
    | true => exact ⟨'t', ['r', 'u', 'e'], .inr (by decide), rfl, fun fuel rest _ _ => rfl⟩
    | false => exact ⟨'f', ['a', 'l', 's', 'e'], .inr (by decide), rfl, fun fuel rest _ _ => rfl⟩
  | int h => exact ⟨_, .int _, readsBack_int h⟩
  -- of the floating numbers only the finite ones stand in a well-formed tree
  | @float x h =>
    cases x with
    | finite negative m =>
      obtain ⟨p, htext, hvalue, hstrict⟩ := Double.text_json_finite negative m
      exact ⟨_, .float negative p hvalue, readsBack_signedText hstrict fun _ => htext⟩
    | _ => cases h
  | text s => exact ⟨_, .text s, readsBack_text s⟩
  | @list items _ ih =>
    obtain ⟨sources, hsources⟩ := exists_forall₂_of_forall ih
    exact ⟨.list sources, .list (hsources.imp fun _ _ h => h.1),
      readsBack_list (hsources.imp fun _ _ h => h.2)⟩
  | @object members _ _ ih =>
    have hvalues : ∀ tree ∈ members.map (·.2), ∃ source,
        tree.SpelledAs source ∧ tree.ReadsBack source := List.forall_mem_map.mpr ih
    obtain ⟨sources, hsources⟩ := exists_forall₂_of_forall hvalues
    exact ⟨_, .object (hsources.imp fun _ _ h => h.1),
      readsBack_object (hsources.imp fun _ _ h => h.2)⟩

/-- The text of a tree is a document of its own, from which the tree is read and behind which
nothing follows. -/
theorem Document.ofText_pretty {tree : Json} (h : tree.WellFormed) :
    ∃ source, Document.ofText (tree.pretty ++ "\n") = ⟨source, false⟩ ∧ tree.SpelledAs source := by
  obtain ⟨source, hspelled, hreads⟩ := exists_readsBack h
  refine ⟨source, ?_, hspelled⟩
  have htext : (tree.pretty ++ "\n").toList = tree.chars 0 ++ ['\n'] := by
    rw [String.toList_append, pretty, String.toList_ofList]
    rfl
  have hbreak : StopsNumber ['\n'] := by
    rintro c ⟨⟩
    exact ⟨rfl, by decide⟩
  have hlength : (tree.chars 0).length < (tree.chars 0 ++ ['\n']).length + 1 := by
    rw [List.length_append]
    omega
  obtain ⟨⟨c, hc, hhead⟩, -, hvalue⟩ := hreads 0 _ hlength
  obtain ⟨hblank, -⟩ := hc.ne
  -- the text of a tree starts with no blank
  have hskip : skipBlanks (tree.chars 0 ++ ['\n']) = tree.chars 0 ++ ['\n'] := by
    obtain ⟨more, hmore⟩ := List.head?_eq_some_iff.mp hhead
    rw [hmore, List.cons_append, skipBlanks_cons hblank]
  unfold Document.ofText
  rw [htext]
  dsimp only
  rw [hskip, hvalue ['\n'] hbreak]
  rfl

end Provision.Json
