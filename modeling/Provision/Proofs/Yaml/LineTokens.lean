import Provision.Proofs.Yaml.Fetch

/-!
# The tokens of lines

A document of simple lines is scanned without a fault, and its tokens follow from the columns of its
lines: a line further in than the block around it opens a block of its own, one further out closes
those further in than itself.
-/

namespace Provision.Yaml

/-! ## What lines spell -/

def Inline.token : Inline → Token
  | .plain text => .scalar .plain text
  | .quoted text => .scalar .doubleQuoted text

namespace Line

/-- The column of the block that a line belongs to. -/
def column : Line → ℕ
  | .blank | .comment _ => 0
  | .entry column dash _ _ => if dash then column + 2 else column
  | .item column _ => column

/-- Whether a line ends in a plain scalar, which goes on where the next one stands further in. -/
def endsPlain : Line → Bool
  | .entry _ _ _ (some (.plain _)) | .item _ _ => true
  | _ => false

/-- Whether every plain scalar ends with its line. -/
def isLaidOut : List Line → Bool
  | [] => true
  | line :: lines =>
    (!line.endsPlain || decide ((target lines).1 ≤ line.column)) && isLaidOut lines

def valueTokens : Option Inline → List Token
  | none => []
  | some value => [value.token]

/-- The tokens of a line inside of some blocks, and the blocks around what follows it. -/
def tokens (i : Indents) : Line → List Token × Indents
  | .blank | .comment _ => ([], i)
  | .entry column dash key value =>
    let (front, i) :=
      if dash then
        let (starts, i) := i.enter column .blockSequenceStart
        (starts ++ [.blockEntry], i)
      else ([], i)
    let (starts, i) := i.enter (if dash then column + 2 else column) .blockMappingStart
    (front ++ (starts ++ [.key, .scalar .plain key, .value] ++ valueTokens value), i)
  | .item column text =>
    let (starts, i) := i.enter column .blockSequenceStart
    (starts ++ [.blockEntry] ++ [.scalar .plain text], i)

/-- The tokens of all lines and of the end of the text. -/
def allTokens (i : Indents) : List Line → List Token
  | [] => (i.close 0).1 ++ ((i.close 0).2.close (-1)).1 ++ [.streamEnd]
  | line :: lines => (line.tokens i).1 ++ allTokens (line.tokens i).2 lines

theorem length_le_length_text (lines : List Line) : lines.length ≤ (text lines).length := by
  induction lines with
  | nil => exact Nat.le_refl _
  | cons line lines ih =>
    rw [text, List.length_append, List.length_cons, List.length_cons]
    omega

end Line

namespace Scan

/-- Whether a scan inside of some blocks adds these tokens wherever it comes to some lines. -/
def Continues (fuel : ℕ) (i : Indents) (lines : List Line) (steps : ℕ) (out : List Token) : Prop :=
  ∀ released count c keyAllowed, Cursor.Reaches c keyAllowed lines fuel →
    (between fuel released count i c keyAllowed).Adds steps out

variable {fuel steps : ℕ} {i : Indents} {lines : List Line} {out released : List Token} {count : ℕ}
  {c c' : Cursor} {keyAllowed : Bool} {key : List Char} {value : Option Inline}

/-- Behind a dash the token that follows it is reached over one blank. -/
theorem skipToToken_behindDash {text : List Char} (hfuel : 0 < fuel)
    (hrest : c.rest = '-' :: ' ' :: text) (hstart : IsWordStart text)
    (hcomment : text.head? ≠ some '#') :
    (between fuel released count i (c.skip 1) true).skipToToken fuel =
      between fuel released count i (c.skip 2) true := by
  obtain ⟨more, rfl⟩ : ∃ n, fuel = n + 1 := ⟨fuel - 1, by omega⟩
  have hbehind : (c.skip 1).rest = ' ' :: text := Cursor.rest_skip_one hrest
  have hmark : (c.skip 1).next? ≠ some '\ufeff' := by
    rw [Cursor.next?, hbehind]
    exact fun heq => absurd (Option.some.inj heq) (by decide)
  rw [skipToToken_blanks 1 hbehind hmark hstart hcomment, Cursor.skip_skip]

section

variable (hlines : ∀ line ∈ lines, line.isSimple = true)
  (hfuel : (Line.text lines).length + 1 < fuel)

include hlines hfuel

theorem Continues.of_newline (h : Continues fuel i lines steps out)
    (hrest : c.rest = '\n' :: Line.text lines) :
    (between fuel released count i c keyAllowed).Adds steps out := by
  have hlength := Line.length_le_length_text lines
  exact h _ _ _ _ (Line.reaches_newline hlines hrest keyAllowed (by omega))

/-- Behind the colon of an entry comes its value, if there is one. -/
theorem Continues.of_value (h : Continues fuel i lines steps out)
    (hvalue : value.all Inline.isSimple = true)
    (hrest : c.rest = Line.valueChars value ++ '\n' :: Line.text lines)
    (hlength : c.rest.length < fuel) (hpositive : 0 ≤ i.inner) (hcolumn : i.inner < c.column)
    (hlaid : ∀ text, value = some (.plain text) → (Line.target lines).1 ≤ i.inner) :
    (between fuel released count i c false).Adds (steps + (Line.valueChars value).length)
      (Line.valueTokens value ++ out) := by
  have hlinesLength := Line.length_le_length_text lines
  obtain ⟨more, rfl⟩ : ∃ n, fuel = n + 1 := ⟨fuel - 1, by omega⟩
  have hright : i.inner < (c.skip 1).column :=
    Int.lt_trans hcolumn (Int.ofNat_lt.mpr (Nat.lt_succ_self _))
  cases value with
  | none => exact h.of_newline hlines hfuel hrest
  | some value =>
    -- one blank stands in front of the value
    have hbehind : (c.skip 1).rest = value.chars ++ '\n' :: Line.text lines :=
      Cursor.rest_skip_one hrest
    have hmark : c.next? ≠ some '\ufeff' := by
      rw [Cursor.next?, hrest]
      exact fun heq => absurd (Option.some.inj heq) (by decide)
    have hshorter : (c.skip 1).rest.length < more + 1 := by
      rw [hrest] at hlength
      rw [hbehind]
      exact Nat.lt_of_succ_lt hlength
    have hskip : IsWordStart (value.chars ++ '\n' :: Line.text lines) →
        (value.chars ++ '\n' :: Line.text lines).head? ≠ some '#' →
        (between (more + 1) released count i c false).skipToToken (more + 1) =
          between (more + 1) released count i (c.skip 1) false :=
      skipToToken_blanks 1 hrest hmark
    rw [Line.valueChars, List.length_cons]
    cases value with
    | plain text =>
      have hplain : isPlainText text = true := hvalue
      obtain ⟨hstart, hcomment⟩ := wordStart_of_isPlainText hplain ('\n' :: Line.text lines)
      have hadds := Adds.of_plain (hskip hstart hcomment) hlines hplain hbehind hpositive hright
        (hlaid text rfl) hshorter fun released count c hleads =>
          h released count c true (hleads _ (by omega))
      exact hadds.mono (by omega)
    | quoted text =>
      have hquoted : isQuotable text = true := hvalue
      have hopened : (c.skip 1).rest = '"' :: (text ++ '"' :: '\n' :: Line.text lines) := by
        rw [hbehind, Inline.chars, List.append_assoc]
        rfl
      have hclosed : ((c.skip 1).skip (text.length + 2)).rest = '\n' :: Line.text lines := by
        have hend := Cursor.rest_skip hbehind
        rw [Inline.chars, List.length_append, List.length_cons] at hend
        exact hend
      have hstart : IsWordStart ((Inline.quoted text).chars ++ '\n' :: Line.text lines) := by
        rintro _ ⟨⟩
        exact ⟨rfl, rfl⟩
      have hcomment : ((Inline.quoted text).chars ++ '\n' :: Line.text lines).head? ≠ some '#' :=
        fun heq => absurd (Option.some.inj heq) (by decide)
      have hadds := Adds.of_quoted (hskip hstart hcomment) hquoted hopened (Int.le_of_lt hright)
        hshorter fun released count => h.of_newline hlines hfuel hclosed
      exact hadds.mono (by omega)

/-- A key with what stands behind its colon. -/
theorem Continues.of_key
    (h : Continues fuel (i.enter c'.column .blockMappingStart).2 lines steps out)
    (hskip : (between fuel released count i c keyAllowed).skipToToken fuel =
      between fuel released count i c' true)
    (hgrounded : i.Grounded) (hkey : isSimpleName key = true)
    (hvalue : value.all Inline.isSimple = true)
    (hrest : c'.rest = key ++ ':' :: (Line.valueChars value ++ '\n' :: Line.text lines))
    (hlength : c'.rest.length < fuel)
    (hlaid : ∀ text, value = some (.plain text) → (Line.target lines).1 ≤ c'.column) :
    (between fuel released count i c keyAllowed).Adds (steps + (Line.valueChars value).length + 2)
      ((i.enter c'.column .blockMappingStart).1 ++ [.key, .scalar .plain key, .value] ++
        (Line.valueTokens value ++ out)) := by
  have hinner := (hgrounded.enter c'.column .blockMappingStart).2
  have hbehind : (c'.skip (key.length + 1)).rest =
      Line.valueChars value ++ '\n' :: Line.text lines := by
    rw [← Cursor.skip_skip]
    exact Cursor.rest_skip_one (Cursor.rest_skip hrest)
  have hword : endsWord (Line.valueChars value ++ '\n' :: Line.text lines).head? = true := by
    cases value <;> rfl
  apply Adds.of_key hskip hgrounded hrest hkey hword (by omega)
  intro released count
  apply h.of_value hlines hfuel hvalue hbehind
  · rw [hrest, List.length_append, List.length_cons] at hlength
    rw [hbehind]
    omega
  · rw [hinner]
    exact Int.natCast_nonneg _
  · rw [hinner]
    exact Int.ofNat_lt.mpr (by
      show c'.column < c'.column + (key.length + 1)
      omega)
  · intro text htext
    rw [hinner]
    exact Int.ofNat_le.mpr (hlaid text htext)

end

theorem length_target_lt {line : Line} (hfuel : (Line.text (line :: lines)).length + 1 < fuel)
    (hrest : line.body ++ '\n' :: Line.text lines = c.rest) : c.rest.length < fuel := by
  rw [Line.text, Line.chars, List.length_append, List.length_append, List.length_cons] at hfuel
  rw [← hrest, List.length_append, List.length_cons]
  omega

theorem Continues.item {column : ℕ} {text : List Char} (hlines : ∀ line ∈ lines, line.isSimple = true)
    (htext : isPlainText text = true) (hlaid : (Line.target lines).1 ≤ column) (hgrounded : i.Grounded)
    (hfuel : (Line.text (.item column text :: lines)).length + 1 < fuel)
    (h : Continues fuel (i.enter column .blockSequenceStart).2 lines steps out) :
    Continues fuel i (.item column text :: lines) (steps + 2)
      ((i.enter column .blockSequenceStart).1 ++ [.blockEntry] ++ (.scalar .plain text :: out)) := by
  rintro released count c keyAllowed ⟨c', hat, -, hskip⟩
  obtain ⟨rfl, hrest⟩ := Prod.mk.inj hat
  have hlength := length_target_lt hfuel hrest
  have hbehind : (c'.skip 2).rest = text ++ '\n' :: Line.text lines :=
    Cursor.rest_skip (show c'.rest = ['-', ' '] ++ _ from hrest.symm)
  have hinner := (hgrounded.enter c'.column .blockSequenceStart).2
  obtain ⟨hstart, hcomment⟩ := wordStart_of_isPlainText htext ('\n' :: Line.text lines)
  have hlinesLength := Line.length_le_length_text lines
  apply Adds.of_dash (hskip _ _ _ _) hrest.symm
  intro released count
  apply Adds.of_plain (skipToToken_behindDash (by omega) hrest.symm hstart hcomment) hlines htext
    hbehind
  · rw [hinner]
    exact Int.natCast_nonneg _
  · rw [hinner]
    exact Int.ofNat_lt.mpr (Nat.lt_add_of_pos_right (Nat.succ_pos 1))
  · rw [hinner]
    exact Int.ofNat_le.mpr hlaid
  · rw [← hrest] at hlength
    rw [hbehind]
    exact Nat.lt_of_succ_lt (Nat.lt_of_succ_lt hlength)
  · intro released count c hleads
    rw [← hrest, List.length_append, List.length_cons] at hlength
    exact h released count c true (hleads fuel (by omega))

theorem Continues.entry {column : ℕ} (hlines : ∀ line ∈ lines, line.isSimple = true)
    (hkey : isSimpleName key = true) (hvalue : value.all Inline.isSimple = true)
    (hlaid : ∀ text, value = some (.plain text) → (Line.target lines).1 ≤ column)
    (hgrounded : i.Grounded)
    (hfuel : (Line.text (.entry column false key value :: lines)).length + 1 < fuel)
    (h : Continues fuel (i.enter column .blockMappingStart).2 lines steps out) :
    Continues fuel i (.entry column false key value :: lines)
      (steps + (Line.valueChars value).length + 2)
      ((i.enter column .blockMappingStart).1 ++ [.key, .scalar .plain key, .value] ++
        (Line.valueTokens value ++ out)) := by
  rintro released count c keyAllowed ⟨c', hat, -, hskip⟩
  obtain ⟨rfl, hrest⟩ := Prod.mk.inj hat
  have hlength := length_target_lt hfuel hrest
  have hkeyed : c'.rest = key ++ ':' :: (Line.valueChars value ++ '\n' :: Line.text lines) := by
    rw [← hrest, Line.body, if_neg Bool.false_ne_true, List.nil_append, List.append_assoc]
    rfl
  have hlinesFuel : (Line.text lines).length + 1 < fuel := by
    rw [hkeyed, List.length_append, List.length_cons, List.length_append, List.length_cons] at hlength
    omega
  exact h.of_key hlines hlinesFuel (hskip _ _ _ _) hgrounded hkey hvalue hkeyed hlength hlaid

theorem Continues.dashedEntry {column : ℕ} (hlines : ∀ line ∈ lines, line.isSimple = true)
    (hkey : isSimpleName key = true) (hvalue : value.all Inline.isSimple = true)
    (hlaid : ∀ text, value = some (.plain text) → (Line.target lines).1 ≤ column + 2)
    (hgrounded : i.Grounded)
    (hfuel : (Line.text (.entry column true key value :: lines)).length + 1 < fuel)
    (h : Continues fuel
      ((i.enter column .blockSequenceStart).2.enter (column + 2) .blockMappingStart).2 lines steps out) :
    Continues fuel i (.entry column true key value :: lines)
      (steps + (Line.valueChars value).length + 3)
      ((i.enter column .blockSequenceStart).1 ++ [.blockEntry] ++
        (((i.enter column .blockSequenceStart).2.enter (column + 2) .blockMappingStart).1 ++
          [.key, .scalar .plain key, .value] ++ (Line.valueTokens value ++ out))) := by
  rintro released count c keyAllowed ⟨c', hat, -, hskip⟩
  obtain ⟨rfl, hrest⟩ := Prod.mk.inj hat
  have hlength := length_target_lt hfuel hrest
  have hdashed : c'.rest =
      '-' :: ' ' :: (key ++ ':' :: (Line.valueChars value ++ '\n' :: Line.text lines)) := by
    rw [← hrest, Line.body, if_pos rfl, List.append_assoc, List.append_assoc]
    rfl
  have hkeyed : (c'.skip 2).rest = key ++ ':' :: (Line.valueChars value ++ '\n' :: Line.text lines) :=
    Cursor.rest_skip (show c'.rest = ['-', ' '] ++ _ from hdashed)
  have hshorter : (c'.skip 2).rest.length < fuel := by
    rw [hdashed] at hlength
    rw [hkeyed]
    exact Nat.lt_of_succ_lt (Nat.lt_of_succ_lt hlength)
  have hlinesFuel : (Line.text lines).length + 1 < fuel := by
    rw [hkeyed, List.length_append, List.length_cons, List.length_append, List.length_cons] at hshorter
    omega
  obtain ⟨x, letters, rfl, halpha, -⟩ := Line.exists_of_isSimpleName hkey
  have hstart := isTokenStart_of_isAlpha (halpha x List.mem_cons_self)
    (letters ++ ':' :: (Line.valueChars value ++ '\n' :: Line.text lines))
  have hcolumn : (c'.skip 2).column = c'.column + 2 := rfl
  -- behind the dash the key opens a mapping at its own column
  rw [← hcolumn] at h hlaid ⊢
  apply Adds.of_dash (hskip _ _ _ _) hdashed
  intro released count
  exact h.of_key hlines hlinesFuel
    (skipToToken_behindDash (by omega) hdashed hstart.isWordStart hstart.noComment)
    (hgrounded.enter c'.column _).1 hkey hvalue hkeyed hshorter hlaid

/-- A line adds its tokens in front of those of the lines that follow. -/
theorem Continues.cons {line : Line} (hlines : ∀ line' ∈ line :: lines, line'.isSimple = true)
    (hlaid : line.endsPlain = true → (Line.target lines).1 ≤ line.column) (hgrounded : i.Grounded)
    (hfuel : (Line.text (line :: lines)).length + 1 < fuel)
    (h : Continues fuel (line.tokens i).2 lines steps out) :
    Continues fuel i (line :: lines) (steps + line.chars.length) ((line.tokens i).1 ++ out) := by
  obtain ⟨hsimple, hrest⟩ := List.forall_mem_cons.mp hlines
  have hchars : line.chars.length = line.indentation + line.body.length := by
    rw [Line.chars, List.length_append, List.length_replicate]
  intro released count c keyAllowed hreaches
  cases line with
  -- a line without tokens leads on to the line behind it
  | blank => exact (h released count c keyAllowed hreaches).mono (by omega)
  | comment text => exact (h released count c keyAllowed hreaches).mono (by omega)
  | item column text =>
    have hbody : (Line.item column text).body.length = text.length + 2 := rfl
    have hadds := Continues.item hrest hsimple (hlaid rfl) hgrounded hfuel h released count c
      keyAllowed hreaches
    have htokens : (Line.item column text).tokens i =
        ((i.enter column .blockSequenceStart).1 ++ [.blockEntry] ++ [.scalar .plain text],
          (i.enter column .blockSequenceStart).2) := rfl
    rw [htokens, List.append_assoc]
    exact hadds.mono (by omega)
  | entry column dash key value =>
    obtain ⟨hkey, hvalue⟩ := Bool.and_eq_true_iff.mp hsimple
    have hpos : 0 < key.length := by
      obtain ⟨x, letters, rfl, -⟩ := Line.exists_of_isSimpleName hkey
      exact Nat.succ_pos _
    have hends : ∀ text, value = some (.plain text) →
        (Line.target lines).1 ≤ (Line.entry column dash key value).column := by
      rintro text rfl
      exact hlaid rfl
    -- behind a dash the entry first opens the sequence it is an item of
    cases dash with
    | false =>
      have hbody : (Line.entry column false key value).body.length =
          key.length + ((Line.valueChars value).length + 1) := by
        rw [Line.body, if_neg Bool.false_ne_true, List.nil_append, List.length_append,
          List.length_cons]
      have hadds := Continues.entry hrest hkey hvalue hends hgrounded hfuel h released count c
        keyAllowed hreaches
      rw [← List.append_assoc _ (Line.valueTokens value)] at hadds
      exact hadds.mono (by omega)
    | true =>
      have hbody : (Line.entry column true key value).body.length =
          2 + key.length + ((Line.valueChars value).length + 1) := by
        rw [Line.body, if_pos rfl, List.length_append, List.length_append, List.length_cons]
        rfl
      have hadds := Continues.dashedEntry hrest hkey hvalue hends hgrounded hfuel h released count c
        keyAllowed hreaches
      rw [← List.append_assoc _ (Line.valueTokens value), ← List.append_assoc _ _ out] at hadds
      exact hadds.mono (by omega)

theorem grounded_tokens (hgrounded : i.Grounded) (line : Line) : (line.tokens i).2.Grounded := by
  cases line with
  | blank => exact hgrounded
  | comment => exact hgrounded
  | item column text => exact (hgrounded.enter column _).1
  | entry column dash key value =>
    cases dash with
    | false => exact (hgrounded.enter column _).1
    | true => exact ((hgrounded.enter column _).1.enter (column + 2) _).1

/-- A scan that comes to some lines adds their tokens. -/
theorem continues_lines (hlines : ∀ line ∈ lines, line.isSimple = true)
    (hlaid : Line.isLaidOut lines = true) (hgrounded : i.Grounded)
    (hfuel : (Line.text lines).length + 1 < fuel) :
    Continues fuel i lines ((Line.text lines).length + 1) (Line.allTokens i lines) := by
  induction lines generalizing i with
  | nil =>
    rintro released count c keyAllowed ⟨c', hat, -, hskip⟩
    obtain ⟨hcolumn, hrest⟩ := Prod.mk.inj hat
    exact Adds.of_end (hskip _ _ _ _) hrest.symm hcolumn.symm
  | cons line lines ih =>
    rw [Line.isLaidOut, Bool.and_eq_true, Bool.or_eq_true, Bool.not_eq_true',
      decide_eq_true_eq] at hlaid
    have hlength : (Line.text (line :: lines)).length =
        line.chars.length + ((Line.text lines).length + 1) := by
      rw [Line.text, List.length_append, List.length_cons]
    have hrest := ih (fun line' hline' => hlines line' (List.mem_cons_of_mem _ hline')) hlaid.2
      (grounded_tokens hgrounded line) (by omega)
    -- a plain text at the end of a line is over only if the next line is no further right
    have hcons := Continues.cons hlines (fun hends => hlaid.1.resolve_left (by rw [hends]; decide))
      hgrounded hfuel hrest
    intro released count c keyAllowed hreaches
    exact (hcons released count c keyAllowed hreaches).mono (by omega)

end Scan

/-! ## Lines that hold no token -/

namespace Line

def hasToken : Line → Bool
  | .blank | .comment _ => false
  | .entry _ _ _ _ | .item _ _ => true

/-- The lines that hold a token. -/
def content (lines : List Line) : List Line :=
  lines.filter hasToken

theorem column_target_content (lines : List Line) :
    (target (content lines)).1 = (target lines).1 := by
  induction lines with
  | nil => rfl
  | cons line lines ih =>
    cases line with
    | blank => exact ih
    | comment => exact ih
    | entry => rfl
    | item => rfl

theorem isLaidOut_content (lines : List Line) : isLaidOut (content lines) = isLaidOut lines := by
  induction lines with
  | nil => rfl
  | cons line lines ih =>
    have hkept : isLaidOut (line :: content lines) = isLaidOut (line :: lines) := by
      rw [isLaidOut, isLaidOut, ih, column_target_content]
    cases line with
    | blank => exact ih
    | comment => exact ih
    | entry => exact hkept
    | item => exact hkept

theorem allTokens_content (i : Indents) (lines : List Line) :
    allTokens i (content lines) = allTokens i lines := by
  induction lines generalizing i with
  | nil => rfl
  | cons line lines ih =>
    cases line with
    | blank => exact ih i
    | comment => exact ih i
    | entry => exact congrArg (_ ++ ·) (ih _)
    | item => exact congrArg (_ ++ ·) (ih _)

end Line

/-! ## Lines from their texts -/

namespace Line

def valueOfChars : List Char → Option Inline
  | ' ' :: '"' :: text => some (.quoted text.dropLast)
  | ' ' :: text => some (.plain text)
  | _ => none

def entryOfChars (column : ℕ) (dash : Bool) (chars : List Char) : Line :=
  let (key, rest) := chars.span Char.isAlpha
  .entry column dash key (valueOfChars rest.tail)

/-- The simple line that is written as a text, if there is one. -/
def ofChars (chars : List Char) : Line :=
  let (blanks, body) := chars.span (· == ' ')
  match body with
  | [] => .blank
  | '#' :: text => .comment text
  | '-' :: ' ' :: rest =>
    if (rest.dropWhile Char.isAlpha).head? == some ':' then entryOfChars blanks.length true rest
    else .item blanks.length rest
  | _ => entryOfChars blanks.length false body

/-- Whether a text is that of a simple line. -/
def isWritten (chars : List Char) : Bool :=
  (ofChars chars).chars == chars && (ofChars chars).isSimple && chars.all isAllowed

theorem text_eq_flatMap (lines : List Line) :
    text lines = lines.flatMap fun line => line.chars ++ ['\n'] := by
  induction lines with
  | nil => rfl
  | cons line lines ih =>
    rw [text, ih, List.flatMap_cons, List.append_assoc]
    rfl

end Line

/-! ## The whole text -/

theorem splitBlock_append (room : ℕ) (text : List Char) :
    (splitBlock room text).1 ++ (splitBlock room text).2 = text := by
  induction text generalizing room with
  | nil => rfl
  | cons x text ih =>
    rw [splitBlock]
    split
    · rfl
    · exact congrArg (x :: ·) (ih _)

/-- A text of characters that a document may contain is readable as a whole. -/
theorem readable_of_isAllowed (fuel : ℕ) {text : List Char} (h : text.all isAllowed = true) :
    readable fuel text = (text, false) := by
  induction fuel generalizing text with
  | zero => rfl
  | succ fuel ih =>
    have hsplit := splitBlock_append blockSize text
    rw [← hsplit, List.all_append, Bool.and_eq_true] at h
    rw [readable]
    dsimp only
    rw [h.1, Bool.not_true, if_neg Bool.false_ne_true]
    split
    · next hothers => rw [List.isEmpty_iff.mp hothers, List.append_nil] at hsplit; rw [hsplit]
    · rw [ih h.2, hsplit]

/-- The tokens of a simple document. -/
theorem tokens_text {lines : List Line} (hlines : ∀ line ∈ lines, line.isSimple = true)
    (hlaid : Line.isLaidOut lines = true) (hallowed : (Line.text lines).all isAllowed = true) :
    tokens (Line.text lines) = (Line.allTokens .outside lines, none) := by
  have hleads : (Cursor.start (Line.text lines)).LeadsTo lines := Line.leadsTo_text hlines rfl rfl
  have hlength := Line.length_le_length_text lines
  have hadds := Scan.continues_lines hlines hlaid Indents.grounded_outside
    (Nat.lt_succ_self _) [] 0 (.start (Line.text lines)) true (hleads _ (by omega))
  unfold tokens
  rw [readable_of_isAllowed _ hallowed]
  exact hadds _ (Nat.le_succ _)

end Provision.Yaml
