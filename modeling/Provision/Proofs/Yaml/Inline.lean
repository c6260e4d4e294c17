import Provision.Proofs.Yaml.Lines

/-!
# Scalars on one line

A plain scalar on the rest of a line is its text, word by word with the blanks between them, and
takes the break at its end with it, with the indentation up to a comment or the next token. A scalar
in double quotes without escapes is the text between them.
-/

namespace Provision.Yaml

variable {c c' c'' : Cursor} {text tail : List Char} {lines : List Line} {indent fuel : ℕ}

theorem Cursor.atDocumentMarker_eq_false (hcolumn : 0 < c.column) : c.atDocumentMarker = false := by
  rw [Cursor.atDocumentMarker, beq_eq_false_iff_ne.mpr (Nat.ne_of_gt hcolumn)]
  rfl

/-! ## Gaps -/

theorem readGap_stop (h : IsWordStart c.rest) (g : Gap) : readGap indent fuel g c = .ok (g, c) := by
  cases fuel with
  | zero => rfl
  | succ fuel =>
    unfold readGap
    cases hnext : c.next? with
    | none => rfl
    | some x =>
      obtain ⟨hblank, hbreak⟩ := h x hnext
      dsimp only
      rw [hblank, hbreak]
      rfl

/-- Blanks on the line where a gap begins are part of it. -/
theorem readGap_blanks {blanks : List Char} (hrest : c.rest = blanks ++ tail)
    (hblanks : ∀ x ∈ blanks, isBlank x = true) (htail : IsWordStart tail) {g : Gap}
    (hbroken : g.broken = false) (hfuel : blanks.length ≤ fuel) :
    readGap indent fuel g c =
      .ok ({ g with blanks := g.blanks ++ blanks }, c.skip blanks.length) := by
  induction blanks generalizing c g fuel with
  | nil =>
    rw [readGap_stop (by rw [hrest]; exact htail), List.append_nil]
    rfl
  | cons x blanks ih =>
    obtain ⟨hx, hblanks⟩ := List.forall_mem_cons.mp hblanks
    obtain ⟨fuel, rfl⟩ : ∃ n, fuel = n + 1 := ⟨fuel - 1, by rw [List.length_cons] at hfuel; omega⟩
    have hnext : c.next? = some x := by
      rw [Cursor.next?, hrest]
      rfl
    have hskip : (c.skip 1).rest = blanks ++ tail := Cursor.rest_skip_one hrest
    -- the gap keeps the blanks it has passed
    have hrec := ih hskip hblanks (g := { g with blanks := g.blanks ++ [x] }) hbroken
      (Nat.le_of_succ_le_succ hfuel)
    unfold readGap
    rw [hnext]
    dsimp only
    rw [if_pos hx, hbroken, if_neg Bool.false_ne_true, ← hbroken, hrec, Cursor.skip_skip,
      List.append_assoc, List.length_cons, Nat.add_comm 1]
    rfl

/-- Behind a break indentation is passed. -/
theorem readGap_indented (column : ℕ) (hrest : c.rest = List.replicate column ' ' ++ tail)
    (htail : IsWordStart tail) {g : Gap} (hbroken : g.broken = true) (hfuel : column ≤ fuel) :
    readGap indent fuel g c = .ok (g, c.skip column) := by
  induction column generalizing c fuel with
  | zero => exact readGap_stop (by rw [hrest]; exact htail) g
  | succ column ih =>
    obtain ⟨fuel, rfl⟩ : ∃ n, fuel = n + 1 := ⟨fuel - 1, by omega⟩
    have hnext : c.next? = some ' ' := by
      rw [Cursor.next?, hrest]
      rfl
    have hskip : (c.skip 1).rest = List.replicate column ' ' ++ tail := Cursor.rest_skip_one hrest
    have hnotab : ¬ (c.column < indent ∧ ' ' = '\t') := fun h => absurd h.2 (by decide)
    unfold readGap
    rw [hnext]
    dsimp only
    rw [if_pos (show isBlank ' ' = true from rfl), if_pos hbroken, if_neg hnotab,
      ih hskip (Nat.le_of_succ_le_succ hfuel), Cursor.skip_skip, Nat.add_comm 1]

/-- A break makes a gap a broken one. -/
theorem readGap_newline (indent fuel : ℕ) (hrest : c.rest = '\n' :: tail) (g : Gap) : ∃ g' : Gap,
    g'.broken = true ∧ readGap indent (fuel + 1) g c =
      readGap indent fuel g' ⟨tail, c.offset + 1, c.line + 1, 0⟩ := by
  have hnext : c.next? = some '\n' := by
    rw [Cursor.next?, hrest]
    rfl
  rw [readGap, hnext]
  dsimp only
  rw [if_neg (show ¬ isBlank '\n' = true by decide), if_pos (show isBreak '\n' = true from rfl),
    Cursor.takeBreak_newline hrest]
  cases hbroken : g.broken with
  | true => exact ⟨⟨g.blanks, true, g.firstBreak, g.laterBreaks ++ ['\n']⟩, rfl, rfl⟩
  | false => exact ⟨⟨[], true, ['\n'], []⟩, rfl, rfl⟩

/-- Behind a break the gap goes on up to the first comment or token of the lines that follow. -/
theorem readGap_text (h : ∀ line ∈ lines, line.isSimple = true)
    (hrest : c.rest = Line.text lines) (hcolumn : c.column = 0) {g : Gap}
    (hbroken : g.broken = true) (hfuel : c.rest.length ≤ fuel) :
    ∃ g' c', readGap indent fuel g c = .ok (g', c') ∧ g'.broken = true ∧ c'.LeadsTo lines ∧
      c.line ≤ c'.line ∧ (c'.column = 0 ∨ c'.column = (Line.target lines).1) := by
  induction lines generalizing c g fuel with
  | nil =>
    exact ⟨g, c, readGap_stop (by rw [hrest]; exact nofun) g, hbroken,
      Line.leadsTo_text h hrest hcolumn, Nat.le_refl _, .inl hcolumn⟩
  | cons line lines ih =>
    have hstart := Line.isTokenStart_target h
    have hleads := Line.leadsTo_text h hrest hcolumn
    obtain ⟨hline, hlines⟩ := List.forall_mem_cons.mp h
    have hindented : c.rest = List.replicate line.indentation ' ' ++
        (line.body ++ '\n' :: Line.text lines) := by
      rw [hrest, Line.text, Line.chars, List.append_assoc]
    -- a line with a token on it ends the gap at this token
    have hcontent : IsTokenStart (line.body ++ '\n' :: Line.text lines) →
        Line.target (line :: lines) = (line.indentation, line.body ++ '\n' :: Line.text lines) →
        ∃ g' c', readGap indent fuel g c = .ok (g', c') ∧ g'.broken = true ∧
          c'.LeadsTo (line :: lines) ∧ c.line ≤ c'.line ∧
          (c'.column = 0 ∨ c'.column = (Line.target (line :: lines)).1) := by
      intro hstart htarget
      have hlength : line.indentation ≤ fuel := by
        rw [hindented, List.length_append, List.length_replicate] at hfuel
        omega
      have hskip : (c.skip line.indentation).rest = line.body ++ '\n' :: Line.text lines :=
        Cursor.rest_skip_replicate hindented
      have hcolumn' : (c.skip line.indentation).column = line.indentation := by
        show c.column + line.indentation = line.indentation
        rw [hcolumn, Nat.zero_add]
      have hat : (c.skip line.indentation).At (line :: lines) := by
        rw [Cursor.At, htarget, hcolumn', hskip]
      exact ⟨g, c.skip line.indentation,
        readGap_indented _ hindented hstart.isWordStart hbroken hlength, hbroken,
        leadsTo_at hat (hskip ▸ hstart), Nat.le_refl _, .inr (by rw [htarget, hcolumn'])⟩
    cases line with
    | blank =>
      have hrest : c.rest = '\n' :: Line.text lines := hrest
      rw [hrest, List.length_cons] at hfuel
      obtain ⟨fuel, rfl⟩ : ∃ n, fuel = n + 1 := ⟨fuel - 1, by omega⟩
      obtain ⟨g', hbroken', hgap⟩ := readGap_newline indent fuel hrest g
      obtain ⟨g'', c', hgap', hbroken'', hleads', hle, hcolumn'⟩ := ih hlines
        (c := ⟨Line.text lines, c.offset + 1, c.line + 1, 0⟩) rfl rfl hbroken'
        (Nat.le_of_succ_le_succ hfuel)
      exact ⟨g'', c', hgap.trans hgap', hbroken'', hleads'.of_target_eq rfl (Nat.le_succ _),
        Nat.le_of_succ_le hle, hcolumn'⟩
    | comment text =>
      refine ⟨g, c, readGap_stop ?_ g, hbroken, hleads, Nat.le_refl _, .inl hcolumn⟩
      rw [hrest]
      rintro x ⟨⟩
      exact ⟨rfl, rfl⟩
    | item column text => exact hcontent hstart rfl
    | entry column dash key value => exact hcontent hstart rfl

/-! ## Plain scalars -/

/-- The first word of a text, and what follows it from the next blank on. -/
theorem exists_word {afterBlank : Bool} (h : isInline afterBlank text = true) (tail : List Char) :
    ∃ word more, text = word ++ more ∧ plainWord false (text ++ '\n' :: tail) = .ok word ∧
      (more = [] ∨ ∃ x rest, more = x :: rest ∧ isBlank x = true ∧ isInline true more = true) := by
  induction text generalizing afterBlank with
  | nil => exact ⟨[], [], rfl, rfl, .inl rfl⟩
  | cons x rest ih =>
    simp only [isInline, Bool.and_eq_true, Bool.not_eq_true'] at h
    obtain ⟨⟨⟨hbreak, hcolon⟩, -⟩, hrest⟩ := h
    -- the word ends at the first blank
    cases hblank : isBlank x with
    | true =>
      have hcomment : (x == '#') = false := by
        rw [beq_eq_false_iff_ne]
        rintro rfl
        exact absurd hblank (by decide)
      refine ⟨[], x :: rest, rfl, ?_, .inr ⟨x, rest, rfl, hblank, ?_⟩⟩
      · rw [List.cons_append, plainWord, hblank]
        rfl
      · rw [isInline, hbreak, hcolon, hcomment, hrest]
        rfl
    | false =>
      obtain ⟨word, more, rfl, hword, hmore⟩ := ih hrest
      refine ⟨x :: word, more, rfl, ?_, hmore⟩
      have hends : endsWord (word ++ more ++ '\n' :: tail).head? = endsWord (word ++ more).head? := by
        cases word ++ more <;> rfl
      rw [List.cons_append, plainWord, hblank, hbreak, hends, hcolon, hword]
      rfl

/-- The blanks in front of a text. -/
theorem exists_blanks (text : List Char) : ∃ blanks rest, text = blanks ++ rest ∧
    (∀ x ∈ blanks, isBlank x = true) ∧ ∀ x, rest.head? = some x → isBlank x = false := by
  induction text with
  | nil => exact ⟨[], [], rfl, nofun, nofun⟩
  | cons x rest ih =>
    cases hblank : isBlank x with
    | true =>
      obtain ⟨blanks, rest, rfl, hblanks, hrest⟩ := ih
      exact ⟨x :: blanks, rest, rfl, List.forall_mem_cons.mpr ⟨hblank, hblanks⟩, hrest⟩
    | false =>
      refine ⟨[], x :: rest, rfl, nofun, ?_⟩
      rintro _ ⟨⟩
      exact hblank

theorem isInline_of_blanks {blanks rest : List Char} (hblanks : ∀ x ∈ blanks, isBlank x = true)
    (h : isInline true (blanks ++ rest) = true) : isInline true rest = true := by
  induction blanks with
  | nil => exact h
  | cons x blanks ih =>
    obtain ⟨hx, hblanks⟩ := List.forall_mem_cons.mp hblanks
    rw [List.cons_append, isInline, hx, Bool.and_eq_true] at h
    exact ih hblanks h.2

theorem isBreak_of_isInline {afterBlank : Bool} {x : Char}
    (h : isInline afterBlank text = true) (hx : text.head? = some x) : isBreak x = false := by
  cases text with
  | nil => cases hx
  | cons y rest =>
    cases hx
    simp only [isInline, Bool.and_eq_true, Bool.not_eq_true'] at h
    exact h.1.1.1

/-- A text is a word, and then blanks and another text unless it ends. -/
theorem exists_words (h : isInline true text = true) (hstart : IsWordStart text) (tail : List Char) :
    ∃ word more, text = word ++ more ∧ word ≠ [] ∧
      plainWord false (text ++ '\n' :: tail) = .ok word ∧
      (more = [] ∨ ∃ x blanks next, more = x :: blanks ++ next ∧
        (∀ y ∈ x :: blanks, isBlank y = true) ∧ isInline true next = true ∧ IsWordStart next) := by
  obtain ⟨word, more, rfl, hword, hmore⟩ := exists_word h tail
  have hempty : word ≠ [] := by
    rintro rfl
    rcases hmore with rfl | ⟨x, rest, rfl, hblank, -⟩
    · cases h
    · rw [(hstart x rfl).1] at hblank
      cases hblank
  refine ⟨word, more, rfl, hempty, hword, ?_⟩
  rcases hmore with rfl | ⟨x, rest, rfl, hblank, hinline⟩
  · exact .inl rfl
  · obtain ⟨blanks, next, rfl, hblanks, hfirst⟩ := exists_blanks rest
    have hall : ∀ y ∈ x :: blanks, isBlank y = true := List.forall_mem_cons.mpr ⟨hblank, hblanks⟩
    have hnext : isInline true next = true := isInline_of_blanks hall hinline
    exact .inr ⟨x, blanks, next, rfl, hall, hnext,
      fun y hy => ⟨hfirst y hy, isBreak_of_isInline hnext hy⟩⟩

/-- A word that ends in a blank or a break is followed by a gap. -/
theorem readPlain_word {word : List Char} (hcolumn : 0 < c.column) (hcomment : c.next? ≠ some '#')
    (hword : plainWord false c.rest = .ok word) (hempty : word ≠ [])
    (hspace : (c.skip word.length).atSpace = true) (g : Gap) :
    readPlain false indent (fuel + 1) g c =
      (readGap indent (fuel + 1) .empty (c.skip word.length)).bind fun (g', c') =>
        if c'.column < indent then .ok (g.text ++ word, g', c')
        else (readPlain false indent fuel g' c').map fun (rest, g'', c'') =>
          (g.text ++ word ++ rest, g'', c'') := by
  have hmarker : (c.atDocumentMarker || c.next? == some '#') = false := by
    rw [Cursor.atDocumentMarker_eq_false hcolumn, beq_eq_false_iff_ne.mpr hcomment]
    rfl
  have hisEmpty : word.isEmpty = false := by
    cases word with
    | nil => exact absurd rfl hempty
    | cons => rfl
  rw [readPlain, hmarker, if_neg Bool.false_ne_true, hword]
  show (if word.isEmpty then _ else _) = _
  rw [hisEmpty, if_neg Bool.false_ne_true]
  show (if !(c.skip word.length).atSpace then _ else _) = _
  rw [hspace, Bool.not_true, if_neg Bool.false_ne_true]
  cases readGap indent (fuel + 1) .empty (c.skip word.length) with
  | error fault => rfl
  | ok gap =>
    obtain ⟨g', c'⟩ := gap
    show (if (!false && decide (c'.column < indent)) = true then _ else _) =
      if c'.column < indent then _ else _
    -- a continuation further left than the indentation belongs to what is around the text
    by_cases hleft : c'.column < indent
    · rw [if_pos hleft, if_pos (by rw [decide_eq_true hleft]; rfl)]
      rfl
    · rw [if_neg hleft, if_neg (by rw [decide_eq_false hleft]; exact Bool.false_ne_true)]
      cases readPlain false indent fuel g' c' <;> rfl

/-- A word at the end of a line ends the scalar when what follows stands further left. -/
theorem readPlain_lastWord {word : List Char} (hlines : ∀ line ∈ lines, line.isSimple = true)
    (hcolumn : 0 < c.column) (hcomment : c.next? ≠ some '#')
    (hword : plainWord false c.rest = .ok word) (hempty : word ≠ [])
    (hbehind : (c.skip word.length).rest = '\n' :: Line.text lines) (hpositive : 0 < indent)
    (htarget : (Line.target lines).1 < indent) (hfuel : (Line.text lines).length ≤ fuel) (g : Gap) :
    ∃ g' c', readPlain false indent (fuel + 1) g c = .ok (g.text ++ word, g', c') ∧
      g'.broken = true ∧ c'.LeadsTo lines ∧ c.line < c'.line := by
  have hspace : (c.skip word.length).atSpace = true := by
    rw [Cursor.atSpace, Cursor.next?, hbehind]
    rfl
  obtain ⟨g₁, hbroken, hgap⟩ := readGap_newline indent fuel hbehind .empty
  obtain ⟨g', c', hgap', hbroken', hleads, hle, hcolumn'⟩ := readGap_text hlines
    (c := ⟨Line.text lines, (c.skip word.length).offset + 1, (c.skip word.length).line + 1, 0⟩)
    rfl rfl hbroken hfuel
  have hleft : c'.column < indent := by
    rcases hcolumn' with hzero | htoken
    · rw [hzero]
      exact hpositive
    · rw [htoken]
      exact htarget
  refine ⟨g', c', ?_, hbroken', hleads, Nat.lt_of_succ_le hle⟩
  rw [readPlain_word hcolumn hcomment hword hempty hspace, hgap, hgap']
  exact if_pos hleft

/-- Blanks behind a word are part of the scalar when another word follows. -/
theorem readPlain_blanks {word blanks : List Char} {x : Char} (hcolumn : 0 < c.column)
    (hcomment : c.next? ≠ some '#') (hword : plainWord false c.rest = .ok word) (hempty : word ≠ [])
    (hbehind : (c.skip word.length).rest = x :: blanks ++ tail)
    (hblanks : ∀ y ∈ x :: blanks, isBlank y = true) (htail : IsWordStart tail)
    (hright : indent ≤ c.column) (hfuel : blanks.length ≤ fuel) (g : Gap) :
    readPlain false indent (fuel + 1) g c =
      (readPlain false indent fuel ⟨x :: blanks, false, [], []⟩
        ((c.skip word.length).skip (blanks.length + 1))).map fun read =>
          (g.text ++ word ++ read.1, read.2) := by
  have hspace : (c.skip word.length).atSpace = true := by
    rw [Cursor.atSpace, Cursor.next?, hbehind]
    show (isBlank x || isBreak x) = true
    rw [hblanks x List.mem_cons_self]
    rfl
  have hgap : readGap indent (fuel + 1) .empty (c.skip word.length) =
      .ok (⟨x :: blanks, false, [], []⟩, (c.skip word.length).skip (blanks.length + 1)) :=
    readGap_blanks hbehind hblanks htail rfl (Nat.succ_le_succ hfuel)
  have hright' : indent ≤ ((c.skip word.length).skip (blanks.length + 1)).column :=
    Nat.le_trans hright (Nat.le_trans (Nat.le_add_right _ _) (Nat.le_add_right _ _))
  rw [readPlain_word hcolumn hcomment hword hempty hspace, hgap]
  exact if_neg (Nat.not_lt.mpr hright')

/-- A plain scalar on the rest of a line is its text. What follows is passed up to the next comment or
token, which stands further left. -/
theorem readPlain_inline (hlines : ∀ line ∈ lines, line.isSimple = true)
    (h : isInline true text = true) (hstart : IsWordStart text)
    (hrest : c.rest = text ++ '\n' :: Line.text lines) (hpositive : 0 < indent)
    (hcolumn : indent ≤ c.column) (htarget : (Line.target lines).1 < indent)
    (hfuel : c.rest.length < fuel) (g : Gap) :
    ∃ g' c', readPlain false indent fuel g c = .ok (g.text ++ text, g', c') ∧
      g'.broken = true ∧ c'.LeadsTo lines ∧ c.line < c'.line := by
  induction fuel generalizing text g c with
  | zero => exact absurd hfuel (Nat.not_lt_zero _)
  | succ fuel ih =>
    have hpositive' : 0 < c.column := Nat.lt_of_lt_of_le hpositive hcolumn
    have hcomment : c.next? ≠ some '#' := by
      rw [Cursor.next?, hrest]
      cases text with
      | nil => cases h
      | cons x rest =>
        rintro ⟨⟩
        simp [isInline] at h
    obtain ⟨word, more, rfl, hempty, hword, hmore⟩ := exists_words h hstart (Line.text lines)
    rw [← hrest] at hword
    rw [List.append_assoc] at hrest
    have hbehind := Cursor.rest_skip hrest
    have hpos : 0 < word.length := List.length_pos_iff.mpr hempty
    -- the word ends the text, or blanks and another word follow it on the line
    rcases hmore with rfl | ⟨x, blanks, next, rfl, hblanks, hnext, hnextStart⟩
    · have hlength : (Line.text lines).length ≤ fuel := by
        rw [hrest, List.length_append, List.nil_append, List.length_cons] at hfuel
        omega
      rw [List.append_nil]
      exact readPlain_lastWord hlines hpositive' hcomment hword hempty hbehind hpositive htarget
        hlength g
    · have htail : IsWordStart (next ++ '\n' :: Line.text lines) := by
        cases next with
        | nil => cases hnext
        | cons y next => exact hnextStart
      have hlength : word.length + (blanks.length + 1 + (next ++ '\n' :: Line.text lines).length) <
          fuel + 1 := by
        rw [hrest, List.length_append, List.append_assoc, List.length_append, List.length_cons] at hfuel
        exact hfuel
      rw [List.append_assoc] at hbehind
      have hskip : ((c.skip word.length).skip (blanks.length + 1)).rest =
          next ++ '\n' :: Line.text lines := Cursor.rest_skip hbehind
      obtain ⟨g', c', hplain, hbroken, hleads, hline⟩ := ih hnext hnextStart hskip
        (Nat.le_trans hcolumn (Nat.le_trans (Nat.le_add_right _ _) (Nat.le_add_right _ _)))
        (by rw [hskip]; omega) ⟨x :: blanks, false, [], []⟩
      refine ⟨g', c', ?_, hbroken, hleads, hline⟩
      rw [readPlain_blanks hpositive' hcomment hword hempty hbehind hblanks htail hcolumn (by omega),
        hplain]
      show Except.ok (g.text ++ word ++ (x :: blanks ++ next), g', c') = _
      rw [List.append_assoc]

/-! ## Names -/

theorem plainWord_name {name : List Char} (hname : ∀ x ∈ name, x.isAlpha = true)
    (htail : endsWord tail.head? = true) : plainWord false (name ++ ':' :: tail) = .ok name := by
  induction name with
  | nil =>
    rw [List.nil_append, plainWord, htail]
    rfl
  | cons x name ih =>
    obtain ⟨hx, hname⟩ := List.forall_mem_cons.mp hname
    obtain ⟨hblank, hbreak⟩ := (isTokenStart_of_isAlpha hx name).isWordStart x rfl
    rw [List.cons_append, plainWord, hblank, hbreak,
      beq_eq_false_iff_ne.mpr (isAlpha_ne hx (show ':'.isAlpha = false from rfl)), ih hname]
    rfl

/-- A name is read up to the colon that makes it a key. -/
theorem readPlain_name {name : List Char} (hname : ∀ x ∈ name, x.isAlpha = true) (hempty : name ≠ [])
    (hrest : c.rest = name ++ ':' :: tail) (htail : endsWord tail.head? = true) :
    readPlain false indent (fuel + 1) .empty c = .ok (name, .empty, c.skip name.length) := by
  have hbehind : (c.skip name.length).next? = some ':' := by
    rw [Cursor.next?, Cursor.rest_skip hrest]
    rfl
  have hword : plainWord false c.rest = .ok name := by
    rw [hrest]
    exact plainWord_name hname htail
  obtain ⟨x, name, rfl⟩ := List.exists_cons_of_ne_nil hempty
  have hx := hname x List.mem_cons_self
  have hmarker : (c.atDocumentMarker || c.next? == some '#') = false := by
    -- a letter starts no mark between documents
    have hmarks : ∀ y : Char, y.isAlpha = false → startsMarker y c.rest = false := by
      intro y hy
      rw [startsMarker, Bool.and_eq_false_iff, beq_eq_false_iff_ne, hrest]
      exact .inl fun heq => isAlpha_ne hx hy (List.cons.inj heq).1
    rw [Cursor.atDocumentMarker, startsDocumentMarker, hmarks '-' rfl, hmarks '.' rfl, Bool.or_false,
      Bool.and_false, Bool.false_or, beq_eq_false_iff_ne, Cursor.next?, hrest]
    exact fun heq => isAlpha_ne hx rfl (Option.some.inj heq)
  rw [readPlain, hmarker, if_neg Bool.false_ne_true, hword]
  show (if !(c.skip (x :: name).length).atSpace then _ else _) = _
  rw [Cursor.atSpace, hbehind]
  rfl

/-! ## Quoted scalars -/

/-- Whether a character stands for itself within a run between double quotes. -/
def IsRunChar (x : Char) : Prop :=
  isBlank x = false ∧ isBreak x = false ∧ x ≠ '"' ∧ x ≠ '\\'

theorem readRun_char {x : Char} (hrest : c.rest = x :: tail) (hx : IsRunChar x) :
    readRun true (fuel + 1) c = withChar x (readRun true fuel (c.skip 1)) := by
  obtain ⟨hblank, hbreak, hquote, hescape⟩ := hx
  rw [readRun, hrest]
  split
  · next heq => cases heq
  · next heq =>
    -- two single quotes are two characters here
    cases heq
    rfl
  · next heq =>
    cases heq
    exact absurd rfl hescape
  · next heq =>
    cases heq
    rw [hblank, hbreak]
    show (if x == '"' then _ else _) = _
    rw [beq_eq_false_iff_ne.mpr hquote]
    rfl

theorem readRun_quote (hrest : c.rest = '"' :: tail) :
    readRun true (fuel + 1) c = .ok ([], .quote, c.skip 1) := by
  rw [readRun, hrest]
  rfl

theorem readRun_blank {x : Char} (hrest : c.rest = x :: tail) (hx : isBlank x = true) :
    readRun true (fuel + 1) c = .ok ([], .space, c) := by
  have hne : ∀ y, isBlank y = false → x ≠ y := by
    rintro y hy rfl
    rw [hx] at hy
    cases hy
  rw [readRun, hrest]
  split
  · next heq => cases heq
  · next heq =>
    cases heq
    exact absurd rfl (hne '\'' rfl)
  · next heq =>
    cases heq
    exact absurd rfl (hne '\\' rfl)
  · next heq =>
    cases heq
    rw [hx]
    rfl

/-- A run of characters is read one by one. -/
theorem readRun_append (fuel : ℕ) {run : List Char} (hrest : c.rest = run ++ tail)
    (hrun : ∀ x ∈ run, IsRunChar x) :
    readRun true (fuel + run.length) c =
      (readRun true fuel (c.skip run.length)).map fun (text, ending, c) => (run ++ text, ending, c) := by
  induction run generalizing c with
  | nil =>
    have hskip : c.skip ([] : List Char).length = c := rfl
    rw [hskip]
    show readRun true fuel c = _
    cases readRun true fuel c <;> rfl
  | cons x run ih =>
    obtain ⟨hx, hrun⟩ := List.forall_mem_cons.mp hrun
    rw [List.length_cons, ← Nat.add_assoc, readRun_char hrest hx,
      ih (Cursor.rest_skip_one hrest) hrun, Cursor.skip_skip, Nat.add_comm 1]
    cases readRun true fuel (c.skip (run.length + 1)) <;> rfl

theorem exists_steps {run : List Char} (hfuel : run.length ≤ fuel) :
    ∃ steps, fuel + 1 = steps + 1 + run.length :=
  ⟨fuel - run.length, by omega⟩

theorem readRun_toQuote {run : List Char} (hrest : c.rest = run ++ '"' :: tail)
    (hrun : ∀ x ∈ run, IsRunChar x) (hfuel : run.length ≤ fuel) :
    readRun true (fuel + 1) c = .ok (run, .quote, c.skip (run.length + 1)) := by
  obtain ⟨steps, hsteps⟩ := exists_steps hfuel
  rw [hsteps, readRun_append _ hrest hrun, readRun_quote (Cursor.rest_skip hrest), Cursor.skip_skip]
  exact congrArg (fun text => Except.ok (text, RunEnd.quote, _)) (List.append_nil run)

theorem readRun_toBlank {run : List Char} {x : Char} (hrest : c.rest = run ++ x :: tail)
    (hrun : ∀ x ∈ run, IsRunChar x) (hx : isBlank x = true) (hfuel : run.length ≤ fuel) :
    readRun true (fuel + 1) c = .ok (run, .space, c.skip run.length) := by
  obtain ⟨steps, hsteps⟩ := exists_steps hfuel
  rw [hsteps, readRun_append _ hrest hrun, readRun_blank (Cursor.rest_skip hrest) hx]
  exact congrArg (fun text => Except.ok (text, RunEnd.space, _)) (List.append_nil run)

/-- The first run of a text between quotes, and what follows it from the next blank on. -/
theorem exists_run (h : isQuotable text = true) : ∃ run more, text = run ++ more ∧
    (∀ x ∈ run, IsRunChar x) ∧ isQuotable more = true ∧
      (more = [] ∨ ∃ x rest, more = x :: rest ∧ isBlank x = true) := by
  induction text with
  | nil => exact ⟨[], [], rfl, nofun, rfl, .inl rfl⟩
  | cons x rest ih =>
    have hx := h
    simp only [isQuotable, List.all_cons, Bool.and_eq_true, Bool.not_eq_true', Bool.or_eq_false_iff,
      beq_eq_false_iff_ne] at hx
    obtain ⟨⟨⟨hbreak, hquote⟩, hescape⟩, hrest⟩ := hx
    cases hblank : isBlank x with
    | true => exact ⟨[], x :: rest, rfl, nofun, h, .inr ⟨x, rest, rfl, hblank⟩⟩
    | false =>
      obtain ⟨run, more, rfl, hrun, hmore⟩ := ih hrest
      exact ⟨x :: run, more, rfl,
        List.forall_mem_cons.mpr ⟨⟨hblank, hbreak, hquote, hescape⟩, hrun⟩, hmore⟩

/-- A text between quotes is a run, and then blanks and another text unless it ends. -/
theorem exists_runs (h : isQuotable text = true) : ∃ run more, text = run ++ more ∧
    (∀ x ∈ run, IsRunChar x) ∧
      (more = [] ∨ ∃ x blanks next, more = x :: blanks ++ next ∧
        (∀ y ∈ x :: blanks, isBlank y = true) ∧ isQuotable next = true ∧
        ∀ y, next.head? = some y → isBlank y = false) := by
  obtain ⟨run, more, rfl, hrun, hmore, rfl | ⟨x, rest, rfl, hblank⟩⟩ := exists_run h
  · exact ⟨run, [], rfl, hrun, .inl rfl⟩
  · obtain ⟨blanks, next, rfl, hblanks, hfirst⟩ := exists_blanks rest
    rw [← List.cons_append, isQuotable, List.all_append, Bool.and_eq_true] at hmore
    exact ⟨run, _, rfl, hrun, .inr ⟨x, blanks, next, rfl,
      List.forall_mem_cons.mpr ⟨hblank, hblanks⟩, hmore.2, hfirst⟩⟩

theorem isWordStart_of_isQuotable (h : isQuotable text = true)
    (hfirst : ∀ x, text.head? = some x → isBlank x = false) : IsWordStart (text ++ '"' :: tail) := by
  cases text with
  | nil =>
    rintro _ ⟨⟩
    exact ⟨rfl, rfl⟩
  | cons x rest =>
    rintro _ ⟨⟩
    simp only [isQuotable, List.all_cons, Bool.and_eq_true, Bool.not_eq_true',
      Bool.or_eq_false_iff] at h
    exact ⟨hfirst x rfl, h.1.1.1⟩

theorem readQuoted_of_quote {run : List Char} (hcolumn : 0 < c.column) (hrest : c.rest ≠ [])
    (hread : readRun true (fuel + 1) c = .ok (run, .quote, c')) :
    readQuoted true (fuel + 1) c = .ok (run, c') := by
  rw [readQuoted, Cursor.atDocumentMarker_eq_false hcolumn, if_neg Bool.false_ne_true,
    List.isEmpty_eq_false_iff.mpr hrest, if_neg Bool.false_ne_true, hread]
  rfl

theorem readQuoted_of_space {run : List Char} {g : Gap} (hcolumn : 0 < c.column) (hrest : c.rest ≠ [])
    (hread : readRun true (fuel + 1) c = .ok (run, .space, c'))
    (hgap : readGap 0 (fuel + 1) .empty c' = .ok (g, c'')) :
    readQuoted true (fuel + 1) c =
      (readQuoted true fuel c'').map fun read => (run ++ g.text ++ read.1, read.2) := by
  rw [readQuoted, Cursor.atDocumentMarker_eq_false hcolumn, if_neg Bool.false_ne_true,
    List.isEmpty_eq_false_iff.mpr hrest, if_neg Bool.false_ne_true, hread]
  show (readGap 0 (fuel + 1) .empty c').bind (fun gap => (readQuoted true fuel gap.2).bind fun read =>
    .ok (run ++ gap.1.text ++ read.1, read.2)) = _
  rw [hgap]
  show (readQuoted true fuel c'').bind _ = _
  cases readQuoted true fuel c'' <;> rfl

/-- A scalar in double quotes without escapes and breaks is the text between them. -/
theorem readQuoted_quotable (h : isQuotable text = true) (hrest : c.rest = text ++ '"' :: tail)
    (hcolumn : 0 < c.column) (hfuel : c.rest.length < fuel) :
    readQuoted true fuel c = .ok (text, c.skip (text.length + 1)) := by
  induction fuel generalizing text c with
  | zero => exact absurd hfuel (Nat.not_lt_zero _)
  | succ fuel ih =>
    have hempty : c.rest ≠ [] := by
      rw [hrest]
      exact List.append_ne_nil_of_right_ne_nil _ (List.cons_ne_nil _ _)
    obtain ⟨run, more, rfl, hrun, hmore⟩ := exists_runs h
    rw [List.append_assoc] at hrest
    have hlength : run.length + (more.length + (tail.length + 1)) < fuel + 1 := by
      rw [hrest, List.length_append, List.length_append, List.length_cons] at hfuel
      exact hfuel
    -- the closing quote follows the run, or blanks and another run do
    rcases hmore with rfl | ⟨x, blanks, next, rfl, hblanks, hnext, hfirst⟩
    · rw [List.append_nil]
      exact readQuoted_of_quote hcolumn hempty (readRun_toQuote hrest hrun (by omega))
    · rw [List.length_append, List.length_cons] at hlength
      rw [List.append_assoc] at hrest
      have hread : readRun true (fuel + 1) c = .ok (run, .space, c.skip run.length) :=
        readRun_toBlank hrest hrun (hblanks x List.mem_cons_self) (by omega)
      have hbehind := Cursor.rest_skip hrest
      have hgap : readGap 0 (fuel + 1) .empty (c.skip run.length) =
          .ok (⟨x :: blanks, false, [], []⟩, (c.skip run.length).skip (blanks.length + 1)) :=
        readGap_blanks hbehind hblanks (isWordStart_of_isQuotable hnext hfirst) rfl
          (by rw [List.length_cons]; omega)
      have hskip : ((c.skip run.length).skip (blanks.length + 1)).rest = next ++ '"' :: tail :=
        Cursor.rest_skip hbehind
      have hcolumn' : 0 < ((c.skip run.length).skip (blanks.length + 1)).column :=
        Nat.lt_of_lt_of_le hcolumn (Nat.le_trans (Nat.le_add_right _ _) (Nat.le_add_right _ _))
      have hquoted := ih hnext hskip hcolumn' (by
        rw [hskip, List.length_append, List.length_cons]
        omega)
      have hend : (run ++ (x :: blanks ++ next)).length + 1 =
          run.length + (blanks.length + 1 + (next.length + 1)) := by
        rw [List.length_append, List.length_append, List.length_cons]
        omega
      rw [readQuoted_of_space hcolumn hempty hread hgap, hquoted, Cursor.skip_skip, Cursor.skip_skip,
        hend]
      exact congrArg (fun text => Except.ok (text, _)) (List.append_assoc run (x :: blanks) next)

end Provision.Yaml
