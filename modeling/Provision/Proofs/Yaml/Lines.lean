import Provision.Proofs.Yaml.Indents
import Provision.Yaml.Token.Scan

/-!
# Lines of a document

A simple document is made of lines: blank ones, comments, entries of mappings and items of lists,
with a scalar on the rest of the line or none. Between two tokens on different lines stand only
breaks, comments and the indentation of the later one; whatever of them has been read already, the
scan comes to the same place.
-/

namespace Provision.Yaml

/-! ## Lines -/

/-- A scalar on the rest of a line. -/
inductive Inline
  | plain (text : List Char)
  | quoted (text : List Char)
deriving DecidableEq

/-- A line of a simple document. -/
inductive Line
  | blank
  | comment (text : List Char)
  /-- A key at a column, or behind a dash there, with its value. -/
  | entry (column : ℕ) (dash : Bool) (key : List Char) (value : Option Inline)
  /-- An item behind a dash at a column. -/
  | item (column : ℕ) (text : List Char)
deriving DecidableEq

def Inline.chars : Inline → List Char
  | .plain text => text
  | .quoted text => '"' :: text ++ ['"']

namespace Line

/-- What stands behind the key of an entry. -/
def valueChars : Option Inline → List Char
  | none => []
  | some value => ' ' :: value.chars

/-- A line without its indentation. -/
def body : Line → List Char
  | .blank => []
  | .comment text => '#' :: text
  | .entry _ dash key value =>
    (if dash then ['-', ' '] else []) ++ key ++ ':' :: valueChars value
  | .item _ text => '-' :: ' ' :: text

def indentation : Line → ℕ
  | .blank | .comment _ => 0
  | .entry column _ _ _ | .item column _ => column

def chars (line : Line) : List Char :=
  List.replicate line.indentation ' ' ++ line.body

/-- The text of a document made of lines. -/
def text : List Line → List Char
  | [] => []
  | line :: lines => line.chars ++ '\n' :: text lines

/-- Where the first token of some lines stands: its column, and the text from there on. -/
def target : List Line → ℕ × List Char
  | [] => (0, [])
  | .blank :: lines | .comment _ :: lines => target lines
  | .entry column dash key value :: lines =>
    (column, (Line.entry column dash key value).body ++ '\n' :: text lines)
  | .item column text :: lines => (column, (Line.item column text).body ++ '\n' :: Line.text lines)

end Line

/-! ## Simple texts -/

/-- Whether a text stands for itself as a plain scalar from some place of a line up to its end: its
words begin no comment, and none of them ends in a colon. -/
def isInline (afterBlank : Bool) : List Char → Bool
  | [] => !afterBlank
  | x :: rest =>
    !isBreak x && !(x == ':' && endsWord rest.head?) && !(afterBlank && x == '#') &&
      isInline (isBlank x) rest

/-- Whether a text stands for itself as a plain scalar on the rest of a line. -/
def isPlainText : List Char → Bool
  | [] => false
  | x :: rest =>
    Scan.startsPlain false x rest.head? && !(x == '-' && endsWord rest.head?) &&
      isInline true (x :: rest)

/-- Whether a text stands for itself between double quotes. -/
def isQuotable (text : List Char) : Bool :=
  text.all fun x => !(isBreak x || x == '"' || x == '\\')

def isSimpleName (key : List Char) : Bool :=
  !key.isEmpty && key.all Char.isAlpha && Text.size key ≤ 1024

def Inline.isSimple : Inline → Bool
  | .plain text => isPlainText text
  | .quoted text => isQuotable text

def Line.isSimple : Line → Bool
  | .blank => true
  | .comment text => text.all (!isBreak ·)
  | .entry _ _ key value => isSimpleName key && value.all Inline.isSimple
  | .item _ text => isPlainText text

/-! ## Cursors -/

/-- The size of a text can be counted from any start. -/
theorem foldl_size (text : List Char) (n : ℕ) :
    text.foldl (fun size x => size + x.utf8Size) n = n + Text.size text := by
  induction text generalizing n with
  | nil => rfl
  | cons x text ih =>
    have hsize : Text.size (x :: text) = 0 + x.utf8Size + Text.size text := ih _
    rw [List.foldl_cons, ih, hsize, Nat.zero_add, Nat.add_assoc]

/-- The size of two texts in a row is the sum of their sizes. -/
theorem size_append (front rest : List Char) :
    Text.size (front ++ rest) = Text.size front + Text.size rest := by
  rw [Text.size, List.foldl_append, foldl_size rest]
  rfl

namespace Cursor

variable {c : Cursor} {front rest : List Char} {p : Char → Bool}

theorem skip_skip (c : Cursor) (m n : ℕ) : (c.skip m).skip n = c.skip (m + n) := by
  unfold skip
  rw [List.take_add, size_append, List.drop_drop, Nat.add_assoc, Nat.add_assoc]

/-- Behind a text that is skipped comes the rest. -/
theorem rest_skip (h : c.rest = front ++ rest) : (c.skip front.length).rest = rest := by
  show c.rest.drop front.length = rest
  rw [h, List.drop_left]

theorem rest_skip_one {x : Char} (h : c.rest = x :: rest) : (c.skip 1).rest = rest :=
  rest_skip (show c.rest = [x] ++ rest from h)

theorem rest_skip_replicate {n : ℕ} {x : Char} (h : c.rest = List.replicate n x ++ rest) :
    (c.skip n).rest = rest := by
  have hskip := rest_skip h
  rw [List.length_replicate] at hskip
  exact hskip

/-- Skipping by a test ends where the test first fails. -/
theorem skipWhile_eq (h : c.rest = front ++ rest) (hfront : ∀ x ∈ front, p x = true)
    (hrest : ∀ x, rest.head? = some x → p x = false) : c.skipWhile p = c.skip front.length := by
  have htaken : c.rest.takeWhile p = front := by
    rw [h, List.takeWhile_append_of_pos hfront]
    cases rest with
    | nil => exact List.append_nil front
    | cons x rest => rw [List.takeWhile_cons_of_neg (by simp [hrest x rfl]), List.append_nil]
  show c.skip (c.rest.takeWhile p).length = _
  rw [htaken]

/-- A line break is one character and leads to the start of the next line. -/
theorem takeBreak_newline (h : c.rest = '\n' :: rest) :
    c.takeBreak = (['\n'], ⟨rest, c.offset + 1, c.line + 1, 0⟩) := by
  unfold takeBreak
  rw [h]
  rfl

end Cursor

/-! ## Between two tokens -/

/-- Whether a text begins with neither a blank nor a break. -/
def IsWordStart (text : List Char) : Prop :=
  ∀ x, text.head? = some x → isBlank x = false ∧ isBreak x = false

/-- Whether a text begins with neither a blank, a break, a comment nor a byte order mark. -/
structure IsTokenStart (text : List Char) : Prop where
  isWordStart : IsWordStart text
  noComment : text.head? ≠ some '#'
  noMark : text.head? ≠ some '\ufeff'

namespace Cursor

variable {c : Cursor} {rest text : List Char}

/-- Past the blanks and the comment in front of a token or of the end of the line. -/
def passBlanks (c : Cursor) (keyAllowed : Bool) : Cursor :=
  let c := c.skipByteOrderMark.skipWhile fun x => x == ' ' || (!keyAllowed && x == '\t')
  if c.next? == some '#' then c.skipLine else c

theorem skipByteOrderMark_eq (h : c.next? ≠ some '\ufeff') : c.skipByteOrderMark = c := by
  unfold skipByteOrderMark
  rw [beq_eq_false_iff_ne.mpr h, Bool.and_false]
  rfl

/-- The blanks before the first word of a line are passed over. -/
theorem passBlanks_replicate (column : ℕ) (h : c.rest = List.replicate column ' ' ++ rest)
    (hmark : c.next? ≠ some '\ufeff') (hstart : IsWordStart rest)
    (hcomment : rest.head? ≠ some '#') (keyAllowed : Bool) :
    c.passBlanks keyAllowed = c.skip column ∧ (c.skip column).atBreak = false := by
  have hlength := List.length_replicate (n := column) (a := ' ')
  have hnext : (c.skip column).rest = rest := rest_skip_replicate h
  -- only the indentation is passed, as the word behind it starts with no blank
  have hskip : (c.skipWhile fun x => x == ' ' || (!keyAllowed && x == '\t')) = c.skip column := by
    rw [skipWhile_eq h, hlength]
    · intro x hx
      rw [List.eq_of_mem_replicate hx]
      rfl
    · intro x hx
      have hblank := (hstart x hx).1
      rw [isBlank, Bool.or_eq_false_iff] at hblank
      rw [hblank.1, hblank.2, Bool.and_false, Bool.or_false]
  constructor
  · unfold passBlanks
    rw [skipByteOrderMark_eq hmark]
    dsimp only
    rw [hskip, next?, hnext, beq_eq_false_iff_ne.mpr hcomment]
    rfl
  · unfold atBreak next?
    rw [hnext]
    cases hhead : rest.head? with
    | none => rfl
    | some x => exact (hstart x hhead).2

/-- Where no blank is, only a comment is passed over. -/
theorem passBlanks_eq {x : Char} (h : c.next? = some x) (hblank : isBlank x = false)
    (hmark : x ≠ '\ufeff') (keyAllowed : Bool) :
    c.passBlanks keyAllowed = if x = '#' then c.skipLine else c := by
  have hskip : (c.skipWhile fun x => x == ' ' || (!keyAllowed && x == '\t')) = c := by
    rw [skipWhile_eq (show c.rest = [] ++ c.rest from rfl) nofun]
    · rfl
    · intro y hy
      rw [show x = y from Option.some.inj (h.symm.trans hy)] at hblank
      rw [isBlank, Bool.or_eq_false_iff] at hblank
      rw [hblank.1, hblank.2, Bool.and_false, Bool.or_false]
  unfold passBlanks
  rw [skipByteOrderMark_eq (by rw [h]; exact fun heq => hmark (Option.some.inj heq))]
  dsimp only
  rw [hskip, h]
  by_cases hx : x = '#'
  · rw [hx, if_pos rfl, if_pos (beq_self_eq_true _)]
  · rw [if_neg hx, if_neg]
    rw [beq_iff_eq, Option.some.injEq]
    exact hx

theorem skipLine_eq (h : c.rest = text ++ '\n' :: rest) (htext : ∀ x ∈ text, isBreak x = false) :
    c.skipLine = c.skip text.length := by
  apply skipWhile_eq h
  · intro x hx
    rw [htext x hx]
    rfl
  · rintro x ⟨⟩
    rfl

end Cursor

namespace Scan

/-- A scan between two tokens, when none of those before can be a key any more. -/
def between (fuel : ℕ) (released : List Token) (count : ℕ) (i : Indents) (cursor : Cursor)
    (keyAllowed : Bool) : Scan :=
  ⟨fuel, false, cursor, released, count, [], 0, [], i.inner, i.outer, keyAllowed, false⟩

section

variable {fuel steps : ℕ} {released : List Token} {count : ℕ} {i : Indents} {c : Cursor}
  {keyAllowed : Bool} {rest text : List Char}

theorem skipToToken_succ :
    skipToToken (steps + 1) (between fuel released count i c keyAllowed) =
      if (c.passBlanks keyAllowed).atBreak then
        skipToToken steps (between fuel released count i
          (c.passBlanks keyAllowed).takeBreak.2 true)
      else between fuel released count i (c.passBlanks keyAllowed) keyAllowed := by
  cases keyAllowed <;> rfl

/-- The indentation of a token is passed. -/
theorem skipToToken_blanks (column : ℕ) (h : c.rest = List.replicate column ' ' ++ rest)
    (hmark : c.next? ≠ some '\ufeff') (hstart : IsWordStart rest)
    (hcomment : rest.head? ≠ some '#') :
    skipToToken (steps + 1) (between fuel released count i c keyAllowed) =
      between fuel released count i (c.skip column) keyAllowed := by
  obtain ⟨hpass, hbreak⟩ := Cursor.passBlanks_replicate column h hmark hstart hcomment keyAllowed
  rw [skipToToken_succ, hpass, hbreak]
  rfl

theorem skipToToken_newline (h : c.rest = '\n' :: rest) :
    skipToToken (steps + 1) (between fuel released count i c keyAllowed) =
      skipToToken steps (between fuel released count i
        ⟨rest, c.offset + 1, c.line + 1, 0⟩ true) := by
  have hnext : c.next? = some '\n' := by
    rw [Cursor.next?, h]
    rfl
  have hpass : c.passBlanks keyAllowed = c := Cursor.passBlanks_eq hnext rfl (by decide) keyAllowed
  have hbreak : c.atBreak = true := by
    rw [Cursor.atBreak, hnext]
    rfl
  rw [skipToToken_succ, hpass, if_pos hbreak, Cursor.takeBreak_newline h]

theorem skipToToken_comment (h : c.rest = '#' :: text ++ '\n' :: rest)
    (htext : ∀ x ∈ text, isBreak x = false) :
    skipToToken (steps + 1) (between fuel released count i c keyAllowed) =
      skipToToken steps (between fuel released count i
        ⟨rest, (c.skip (text.length + 1)).offset + 1, c.line + 1, 0⟩ true) := by
  have hnext : c.next? = some '#' := by
    rw [Cursor.next?, h]
    rfl
  have hpass : c.passBlanks keyAllowed = c.skip (text.length + 1) := by
    rw [Cursor.passBlanks_eq hnext rfl (by decide) keyAllowed, if_pos rfl]
    exact Cursor.skipLine_eq h (List.forall_mem_cons.mpr ⟨rfl, htext⟩)
  have hrest : (c.skip (text.length + 1)).rest = '\n' :: rest := Cursor.rest_skip h
  have hbreak : (c.skip (text.length + 1)).atBreak = true := by
    rw [Cursor.atBreak, Cursor.next?, hrest]
    rfl
  rw [skipToToken_succ, hpass, if_pos hbreak, Cursor.takeBreak_newline hrest]
  rfl

end

end Scan

/-- Whether a cursor stands at the first token of some lines. -/
def Cursor.At (c : Cursor) (lines : List Line) : Prop :=
  Line.target lines = (c.column, c.rest)

/-- Whether a scan at a cursor comes to the first token of some lines, in a number of steps, without
a token before it. -/
def Cursor.Reaches (c : Cursor) (keyAllowed : Bool) (lines : List Line) (steps : ℕ) : Prop :=
  ∃ c' : Cursor, c'.At lines ∧ c.line ≤ c'.line ∧
    ∀ fuel released count i,
      (Scan.between fuel released count i c keyAllowed).skipToToken steps =
        Scan.between fuel released count i c' true

/-- Whether there is no token between a cursor and the first token of some lines. -/
def Cursor.LeadsTo (c : Cursor) (lines : List Line) : Prop :=
  ∀ steps, lines.length < steps → c.Reaches true lines steps

section

variable {c : Cursor} {lines : List Line} {rest : List Char}

/-- An indented line leads to its first word. -/
theorem leadsTo_indented (column : ℕ) (hrest : c.rest = List.replicate column ' ' ++ rest)
    (hstart : IsTokenStart rest) (htarget : Line.target lines = (c.column + column, rest)) :
    c.LeadsTo lines := by
  intro steps hsteps
  obtain ⟨steps, rfl⟩ : ∃ n, steps = n + 1 := ⟨steps - 1, by omega⟩
  have hskip : (c.skip column).rest = rest := Cursor.rest_skip_replicate hrest
  have hmark : c.next? ≠ some '\ufeff' := by
    rw [Cursor.next?, hrest]
    cases column with
    | zero => exact hstart.noMark
    | succ column => exact fun hhead => absurd (Option.some.inj hhead) (by decide)
  refine ⟨c.skip column, ?_, Nat.le_refl _, fun fuel released count i => ?_⟩
  · show Line.target lines = (c.column + column, (c.skip column).rest)
    rw [htarget, hskip]
  · exact Scan.skipToToken_blanks column hrest hmark hstart.isWordStart hstart.noComment

theorem leadsTo_at (h : c.At lines) (hstart : IsTokenStart c.rest) : c.LeadsTo lines :=
  leadsTo_indented 0 rfl hstart h

/-- Lines in front that hold no token make no difference. -/
theorem Cursor.LeadsTo.of_target_eq {more : List Line} (h : c.LeadsTo lines)
    (htarget : Line.target more = Line.target lines) (hlength : lines.length ≤ more.length) :
    c.LeadsTo more := by
  intro steps hsteps
  obtain ⟨c', hat, hline, hskip⟩ := h steps (Nat.lt_of_le_of_lt hlength hsteps)
  exact ⟨c', htarget.trans hat, hline, hskip⟩

theorem isTokenStart_nil : IsTokenStart [] :=
  ⟨nofun, nofun, nofun⟩

theorem isTokenStart_dash (rest : List Char) : IsTokenStart ('-' :: rest) := by
  refine ⟨?_, ?_, ?_⟩
  · rintro _ ⟨⟩
    exact ⟨rfl, rfl⟩
  · exact fun heq => absurd (Option.some.inj heq) (by decide)
  · exact fun heq => absurd (Option.some.inj heq) (by decide)

theorem isAlpha_ne {x y : Char} (hx : x.isAlpha = true) (hy : y.isAlpha = false) : x ≠ y := by
  rintro rfl
  rw [hx] at hy
  cases hy

theorem isTokenStart_of_isAlpha {x : Char} (h : x.isAlpha = true) (rest : List Char) :
    IsTokenStart (x :: rest) := by
  have hne : ∀ y : Char, y.isAlpha = false → x ≠ y := fun _ hy => isAlpha_ne h hy
  refine ⟨?_, fun heq => hne _ rfl (Option.some.inj heq), fun heq => hne _ rfl (Option.some.inj heq)⟩
  rintro _ ⟨⟩
  refine ⟨?_, ?_⟩
  · simp [isBlank, hne]
  · simp [isBreak, hne]

namespace Line

/-- A simple name has letters only, at least one, and is short enough for a key. -/
theorem exists_of_isSimpleName {key : List Char} (h : isSimpleName key = true) :
    ∃ x rest, key = x :: rest ∧ (∀ y ∈ key, y.isAlpha = true) ∧ Text.size key ≤ 1024 := by
  simp only [isSimpleName, Bool.and_eq_true, List.all_eq_true, decide_eq_true_eq] at h
  obtain ⟨⟨hempty, halpha⟩, hsize⟩ := h
  rcases key with _ | ⟨x, rest⟩
  · cases hempty
  · exact ⟨x, rest, rfl, halpha, hsize⟩

/-- The first token of some lines begins with none of what may stand in front of it. -/
theorem isTokenStart_target (h : ∀ line ∈ lines, line.isSimple = true) :
    IsTokenStart (target lines).2 := by
  induction lines with
  | nil => exact isTokenStart_nil
  | cons line lines ih =>
    obtain ⟨hline, hlines⟩ := List.forall_mem_cons.mp h
    cases line with
    | blank => exact ih hlines
    | comment text => exact ih hlines
    | item column text => exact isTokenStart_dash _
    | entry column dash key value =>
      cases dash with
      | true => exact isTokenStart_dash _
      | false =>
        obtain ⟨x, rest, rfl, halpha, -⟩ := exists_of_isSimpleName (Bool.and_eq_true_iff.mp hline).1
        exact isTokenStart_of_isAlpha (halpha x List.mem_cons_self) _

/-- From its start, the text of simple lines leads to the first token. -/
theorem leadsTo_text (h : ∀ line ∈ lines, line.isSimple = true) (hrest : c.rest = text lines)
    (hcolumn : c.column = 0) : c.LeadsTo lines := by
  induction lines generalizing c with
  | nil => exact leadsTo_indented 0 hrest isTokenStart_nil (by rw [hcolumn]; rfl)
  | cons line lines ih =>
    obtain ⟨hline, hlines⟩ := List.forall_mem_cons.mp h
    have hstart := isTokenStart_target h
    have hindented : c.rest = List.replicate line.indentation ' ' ++
        (line.body ++ '\n' :: text lines) := by
      rw [hrest, text, chars, List.append_assoc]
    cases line with
    -- one step reaches the line behind, and from there on the rest is as before
    | blank =>
      intro steps hsteps
      obtain ⟨steps, rfl⟩ : ∃ n, steps = n + 1 := ⟨steps - 1, by omega⟩
      obtain ⟨c', hat, hle, hskip⟩ := ih hlines (c := ⟨text lines, c.offset + 1, c.line + 1, 0⟩)
        rfl rfl steps (Nat.lt_of_succ_lt_succ hsteps)
      refine ⟨c', hat, Nat.le_of_succ_le hle, fun fuel released count i => ?_⟩
      rw [Scan.skipToToken_newline hrest, hskip]
    | comment comment =>
      have hcomment : ∀ x ∈ comment, isBreak x = false := by
        simpa [isSimple] using hline
      intro steps hsteps
      obtain ⟨steps, rfl⟩ : ∃ n, steps = n + 1 := ⟨steps - 1, by omega⟩
      obtain ⟨c', hat, hle, hskip⟩ := ih hlines
        (c := ⟨text lines, (c.skip (comment.length + 1)).offset + 1, c.line + 1, 0⟩) rfl rfl steps
        (Nat.lt_of_succ_lt_succ hsteps)
      refine ⟨c', hat, Nat.le_of_succ_le hle, fun fuel released count i => ?_⟩
      rw [Scan.skipToToken_comment hrest hcomment, hskip]
    | item column item =>
      exact leadsTo_indented column hindented hstart (by rw [hcolumn, Nat.zero_add]; rfl)
    | entry column dash key value =>
      exact leadsTo_indented column hindented hstart (by rw [hcolumn, Nat.zero_add]; rfl)

/-- At the end of a line the lines that follow are reached. -/
theorem reaches_newline (h : ∀ line ∈ lines, line.isSimple = true)
    (hrest : c.rest = '\n' :: text lines) (keyAllowed : Bool) {steps : ℕ}
    (hsteps : lines.length + 1 < steps) : c.Reaches keyAllowed lines steps := by
  obtain ⟨steps, rfl⟩ : ∃ n, steps = n + 1 := ⟨steps - 1, by omega⟩
  have hleads := leadsTo_text h (c := ⟨text lines, c.offset + 1, c.line + 1, 0⟩) rfl rfl
  obtain ⟨c', hat, hline, hskip⟩ := hleads steps (Nat.lt_of_succ_lt_succ hsteps)
  refine ⟨c', hat, Nat.le_of_succ_le hline, fun fuel released count i => ?_⟩
  rw [Scan.skipToToken_newline hrest, hskip]

end Line

end

end Provision.Yaml
