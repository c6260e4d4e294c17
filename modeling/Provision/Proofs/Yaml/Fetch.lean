import Provision.Proofs.Yaml.Inline

/-!
# One token after another

A scan that comes to a token fetches it together with the ends and starts of the blocks that its
column calls for. What waits is released at once, unless it may be a key: then it waits for the colon
behind it.
-/

namespace Provision.Yaml

namespace Scan

/-- Whether a scan adds these tokens to those released, and no fault, in a number of steps. -/
def Adds (s : Scan) (steps : ℕ) (out : List Token) : Prop :=
  ∀ fuel, steps ≤ fuel → s.run fuel = (s.released.reverse ++ out, none)

section

variable {fuel steps : ℕ} {released queue out : List Token} {count : ℕ} {i : Indents} {c c' : Cursor}
  {keyAllowed keyAllowed' : Bool} {rest : List Char} {x : Char} {s t u : Scan}

theorem Adds.mono {more : ℕ} (h : s.Adds steps out) (hle : steps ≤ more) : s.Adds more out :=
  fun fuel hfuel => h fuel (Nat.le_trans hle hfuel)

/-- A step adds what it releases to what the later steps add. -/
theorem Adds.of_fetch {front : List Token} (hfetch : s.fetch.bind dropStaleKeys = .ok t)
    (hcut : t.cutShort = false) (hrelease : t.release t.queue = u) (hfinished : u.finished = false)
    (hreleased : u.released = front.reverse ++ s.released) (h : u.Adds steps out) :
    s.Adds (steps + 1) (front ++ out) := by
  intro fuel hfuel
  obtain ⟨fuel, rfl⟩ : ∃ n, fuel = n + 1 := ⟨fuel - 1, by omega⟩
  rw [run, hfetch]
  dsimp only
  rw [hcut, Bool.false_and, if_neg Bool.false_ne_true, hrelease, hfinished,
    if_neg Bool.false_ne_true, h fuel (Nat.le_of_succ_le_succ hfuel), hreleased, List.reverse_append,
    List.reverse_reverse, List.append_assoc]

theorem run_of_finished (hfetch : s.fetch.bind dropStaleKeys = .ok t) (hcut : t.cutShort = false)
    (hrelease : t.release t.queue = u) (hfinished : u.finished = true) :
    s.run (steps + 1) = ((u.queue.reverse ++ u.released).reverse, none) := by
  rw [run, hfetch]
  dsimp only
  rw [hcut, Bool.false_and, if_neg Bool.false_ne_true, hrelease, hfinished, if_pos rfl]

/-! ## At a token -/

/-- A scan with tokens that wait to be released. -/
def waiting (fuel : ℕ) (released : List Token) (count : ℕ) (i : Indents) (c : Cursor)
    (keyAllowed : Bool) (queue : List Token) : Scan :=
  { between fuel released count i c keyAllowed with queue }

/-- A scan at a token, with the ends of the blocks that it closes waiting. -/
def arrived (fuel : ℕ) (released : List Token) (count : ℕ) (i : Indents) (c : Cursor)
    (keyAllowed : Bool) : Scan :=
  waiting fuel released count (i.close c.column).2 c keyAllowed (i.close c.column).1

/-- What waits in front of the pending keys is released. -/
theorem release_append (s : Scan) (front rest : List Token)
    (h : ∀ key ∈ s.pending, s.count + front.length ≤ key.number) :
    s.release (front ++ rest) =
      { s with released := front.reverse ++ s.released, count := s.count + front.length }.release
        rest := by
  induction front generalizing s with
  | nil => rfl
  | cons t front ih =>
    -- no key waits for the token in front, so it can go
    have hkeys : s.pending.any (·.number == s.count) = false := by
      rw [List.any_eq_false]
      intro key hkey
      have hnumber := h key hkey
      rw [List.length_cons] at hnumber
      rw [beq_iff_eq]
      omega
    have hlength : s.count + 1 + front.length = s.count + (t :: front).length := by
      rw [List.length_cons]
      omega
    have hbehind : ∀ key ∈ s.pending, s.count + 1 + front.length ≤ key.number := by
      rw [hlength]
      exact h
    rw [List.cons_append, release, hkeys, if_neg Bool.false_ne_true, ih _ hbehind, List.reverse_cons,
      List.append_assoc]
    dsimp only
    rw [hlength]
    rfl

/-- All that waits is released where no key can come. -/
theorem release_waiting :
    (waiting fuel released count i c keyAllowed queue).release queue =
      between fuel (queue.reverse ++ released) (count + queue.length) i c keyAllowed := by
  have happend := release_append (waiting fuel released count i c keyAllowed queue) queue [] nofun
  rw [List.append_nil] at happend
  exact happend

/-- A step whose tokens need not wait adds them. -/
theorem Adds.of_waiting
    (hfetch : s.fetch.bind dropStaleKeys =
      .ok (waiting fuel s.released count i c keyAllowed queue))
    (h : ∀ released count, (between fuel released count i c keyAllowed).Adds steps out) :
    s.Adds (steps + 1) (queue ++ out) :=
  of_fetch hfetch rfl release_waiting rfl rfl (h _ _)

/-- Blocks are closed down to the column, innermost first. -/
theorem closeBlocks_eq (column : ℤ) (queue : List Token) :
    closeBlocks column i.outer (waiting fuel released count i c keyAllowed queue) =
      waiting fuel released count (i.close column).2 c keyAllowed (queue ++ (i.close column).1) := by
  obtain ⟨inner, outer⟩ := i
  induction outer generalizing inner queue with
  | nil => rw [closeBlocks, Indents.close, Indents.closeFrom, List.append_nil]
  | cons next outer ih =>
    have hclose : closeBlocks column (next :: outer)
        (waiting fuel released count ⟨inner, next :: outer⟩ c keyAllowed queue) =
        if column < inner then
          closeBlocks column outer
            (waiting fuel released count ⟨next, outer⟩ c keyAllowed (queue ++ [.blockEnd]))
        else waiting fuel released count ⟨inner, next :: outer⟩ c keyAllowed queue := rfl
    rw [hclose, Indents.close, Indents.closeFrom]
    dsimp only
    -- a column left of the innermost block closes it, and the blocks around it are next
    split
    · rw [ih, List.append_assoc]
      rfl
    · rw [List.append_nil]

@[simp] theorem between_fuel :
    (between fuel released count i c keyAllowed).fuel = fuel := rfl

@[simp] theorem between_cursor :
    (between fuel released count i c keyAllowed).cursor = c := rfl

@[simp] theorem dropStaleKeys_between :
    (between fuel released count i c keyAllowed).dropStaleKeys =
      .ok (between fuel released count i c keyAllowed) := rfl

@[simp] theorem unindentTo_between :
    (between fuel released count i c keyAllowed).unindentTo c.column =
      arrived fuel released count i c keyAllowed :=
  closeBlocks_eq c.column []

@[simp] theorem arrived_cursor : (arrived fuel released count i c keyAllowed).cursor = c := rfl

@[simp] theorem arrived_cutShort :
    (arrived fuel released count i c keyAllowed).cutShort = false := rfl

@[simp] theorem arrived_inFlow : (arrived fuel released count i c keyAllowed).inFlow = false := rfl

/-! ## What is fetched -/

/-- What begins a plain scalar is no sign of any other token. -/
theorem ne_of_startsPlain {after : Option Char} (h : startsPlain false x after = true) :
    (∀ y ∈ ",[]\x7b\x7d#&*!|>'\"%@\x60".toList, (x == y) = false) ∧
      (x == '?' && endsWord after) = false ∧ (x == ':' && endsWord after) = false := by
  refine ⟨fun y hy => ?_, ?_, ?_⟩
  · rw [beq_eq_false_iff_ne]
    rintro rfl
    -- `-`, `?` and `:` start a plain text in front of a word; the signs here never do
    have hsigns : (",[]\x7b\x7d#&*!|>'\"%@\x60".toList.all
        fun y => !"-?:".toList.contains y) = true := by
      decide
    have hother := List.all_eq_true.mp hsigns x hy
    rw [Bool.not_eq_true'] at hother
    rw [startsPlain, hother, List.contains_iff_mem.mpr hy, Bool.or_true] at h
    cases h
  · cases hx : x == '?' with
    | false => rfl
    | true =>
      rw [eq_of_beq hx] at h
      exact (Bool.not_eq_true' _).mp h
  · cases hx : x == ':' with
    | false => rfl
    | true =>
      rw [eq_of_beq hx] at h
      exact (Bool.not_eq_true' _).mp h

section

variable (hskip : (between fuel released count i c keyAllowed).skipToToken fuel =
  between fuel released count i c' keyAllowed')

include hskip

/-- At the end of the text the scan finishes. -/
theorem fetch_end (hrest : c'.rest = []) :
    (between fuel released count i c keyAllowed).fetch =
      (arrived fuel released count i c' keyAllowed').finish := by
  simp [fetch, hskip, hrest, bind, Except.bind]

theorem fetch_quote (hrest : c'.rest = '"' :: rest) :
    (between fuel released count i c keyAllowed).fetch =
      (arrived fuel released count i c' keyAllowed').quotedScalar .doubleQuoted := by
  simp [fetch, hskip, hrest, startsMarker, bind, Except.bind]

/-- At a dash with a blank behind it an item begins. -/
theorem fetch_dash (hrest : c'.rest = '-' :: ' ' :: rest) :
    (between fuel released count i c keyAllowed).fetch =
      (arrived fuel released count i c' keyAllowed').blockEntry := by
  simp [fetch, hskip, hrest, startsMarker, endsWord, isBlank, bind, Except.bind]

/-- At any other start of a word a plain scalar is taken. -/
theorem fetch_plain (hrest : c'.rest = x :: rest) (hstart : startsPlain false x rest.head? = true)
    (hdash : (x == '-' && endsWord rest.head?) = false)
    (hcolumn : 0 < c'.column ∨ x.isAlpha = true) :
    (between fuel released count i c keyAllowed).fetch =
      (arrived fuel released count i c' keyAllowed').plainScalar := by
  obtain ⟨hsigns, hquestion, hcolon⟩ := ne_of_startsPlain hstart
  have hfirst : (c'.column == 0 && x == '%') = false := by
    rw [hsigns '%' (by decide), Bool.and_false]
  -- a mark between documents starts at the margin, and with no letter
  have hmarker : ∀ y : Char, y.isAlpha = false →
      (c'.column == 0 && startsMarker y (x :: rest)) = false := by
    intro y hy
    rcases hcolumn with hcolumn | halpha
    · rw [beq_eq_false_iff_ne.mpr (Nat.ne_of_gt hcolumn), Bool.false_and]
    · have htake : ((x :: rest).take 3 == [y, y, y]) = false := by
        rw [beq_eq_false_iff_ne]
        exact fun heq => isAlpha_ne halpha hy (List.cons.inj heq).1
      rw [startsMarker, htake, Bool.false_and, Bool.and_false]
  simp only [fetch, between_fuel, hskip, dropStaleKeys_between, between_cursor, unindentTo_between,
    arrived_cutShort, arrived_cursor, arrived_inFlow, hrest, hfirst, hmarker '-' rfl, hmarker '.' rfl,
    hdash, hquestion, hcolon, hstart, hsigns '[' (by decide), hsigns '\x7b' (by decide),
    hsigns ']' (by decide), hsigns '\x7d' (by decide), hsigns ',' (by decide),
    hsigns '*' (by decide), hsigns '&' (by decide), hsigns '!' (by decide), hsigns '|' (by decide),
    hsigns '>' (by decide), hsigns '\'' (by decide), hsigns '"' (by decide), Bool.false_or,
    Bool.false_and, Bool.false_eq_true, if_false, if_true, bind, Except.bind]

end

/-! ## What comes of it -/

theorem indentTo_of_le (s : Scan) {column : ℕ} (h : (column : ℤ) ≤ s.indent) (number : Option ℕ)
    (t : Token) : s.indentTo column number t = s := by
  rw [indentTo, decide_eq_true h, Bool.or_true, if_pos rfl]

theorem indentTo_of_lt (s : Scan) {column : ℕ} (hflow : s.inFlow = false)
    (h : ¬ (column : ℤ) ≤ s.indent) (number : Option ℕ) (t : Token) :
    s.indentTo column number t =
      number.elim
        ({ s with indent := column, outerIndents := s.indent :: s.outerIndents }.add t)
        ({ s with indent := column, outerIndents := s.indent :: s.outerIndents }.insert · t) := by
  rw [indentTo, hflow, Bool.false_or, if_neg fun hle => h (of_decide_eq_true hle)]
  cases number <;> rfl

/-- The start of a block goes behind what waits. -/
theorem indentTo_waiting (column : ℕ) (t : Token) :
    (waiting fuel released count i c keyAllowed queue).indentTo column none t =
      waiting fuel released count (i.begin column t).2 c keyAllowed
        (queue ++ (i.begin column t).1) := by
  rw [Indents.begin]
  by_cases hle : (column : ℤ) ≤ i.inner
  · rw [indentTo_of_le _ hle, if_pos hle, List.append_nil]
  · rw [indentTo_of_lt _ rfl hle, if_neg hle]
    rfl

/-- A dash opens a sequence at its column unless there is one. -/
theorem blockEntry_arrived :
    (arrived fuel released count i c true).blockEntry =
      .ok (waiting fuel released count (i.enter c.column .blockSequenceStart).2 (c.skip 1) true
        ((i.enter c.column .blockSequenceStart).1 ++ [.blockEntry])) := by
  have hentry : (arrived fuel released count i c true).blockEntry =
      ((arrived fuel released count i c true).indentTo c.column none .blockSequenceStart).dropKey.bind
        fun s => .ok { s.addAt .blockEntry (s.cursor.skip 1) with keyAllowed := true } := rfl
  rw [hentry, arrived, indentTo_waiting]
  rfl

/-- A quoted scalar is taken up to its closing quote. -/
theorem quotedScalar_arrived {text : List Char} (htext : isQuotable text = true)
    (hrest : c.rest = '"' :: (text ++ '"' :: rest)) (hfuel : c.rest.length < fuel) :
    (arrived fuel released count i c false).quotedScalar .doubleQuoted =
      .ok (waiting fuel released count (i.close c.column).2 (c.skip (text.length + 2)) false
        ((i.close c.column).1 ++ [.scalar .doubleQuoted text])) := by
  have hinside := Cursor.rest_skip_one hrest
  have hlength : (c.skip 1).rest.length < fuel := by
    rw [hrest, List.length_cons] at hfuel
    rw [hinside]
    omega
  have hread : readQuoted true fuel (c.skip 1) = .ok (text, c.skip (text.length + 2)) := by
    rw [readQuoted_quotable htext hinside (Nat.succ_pos _) hlength, Cursor.skip_skip,
      Nat.add_comm 1]
  have hscalar : (arrived fuel released count i c false).quotedScalar .doubleQuoted =
      (readQuoted true fuel (c.skip 1)).bind fun read =>
        .ok { (arrived fuel released count i c false).addAt (.scalar .doubleQuoted read.1) read.2 with
          keyAllowed := false } := rfl
  rw [hscalar, hread]
  rfl

/-- The pending key of a scan that saves a key where it has arrived. -/
def keyAt (count : ℕ) (i : Indents) (c : Cursor) : PendingKey where
  number := count + (i.close c.column).1.length
  depth := 0
  required := (i.close c.column).2.inner == c.column
  offset := c.offset
  line := c.line
  column := c.column

/-- Whether a key is too far back to be one still. -/
def isStale (c : Cursor) (key : PendingKey) : Bool :=
  key.line < c.line || key.offset + 1024 < c.offset

theorem dropStaleKeys_eq (s : Scan) :
    s.dropStaleKeys =
      if (s.pending.any fun key => isStale s.cursor key && key.required) = true then
        .error .keyWithoutColon
      else .ok { s with pending := s.pending.filter fun key => !isStale s.cursor key } := rfl

/-- Keys on earlier lines are given up. -/
theorem dropStaleKeys_waiting {pending : List PendingKey}
    (h : ∀ key ∈ pending, key.line < c.line ∧ key.required = false) :
    { waiting fuel released count i c keyAllowed queue with pending }.dropStaleKeys =
      .ok (waiting fuel released count i c keyAllowed queue) := by
  -- a key on an earlier line is stale, and none of these had to be one
  have hany : (pending.any fun key => isStale c key && key.required) = false := by
    rw [List.any_eq_false]
    intro key hkey
    rw [(h key hkey).2, Bool.and_false]
    exact Bool.false_ne_true
  have hfilter : (pending.filter fun key => !isStale c key) = [] := by
    rw [List.filter_eq_nil_iff]
    intro key hkey
    rw [isStale, decide_eq_true (h key hkey).1]
    exact Bool.false_ne_true
  rw [dropStaleKeys_eq]
  show (if (pending.any fun key => isStale c key && key.required) = true then _ else
    Except.ok { waiting fuel released count i c keyAllowed queue with
      pending := pending.filter fun key => !isStale c key }) = _
  rw [hany, hfilter]
  rfl

/-- A plain scalar may turn out to be a key where one may begin. -/
theorem plainScalar_eq {text : List Char} {g : Gap}
    (hread : readPlain false ((i.close c.column).2.inner + 1).toNat fuel .empty c =
      .ok (text, g, c')) :
    (arrived fuel released count i c keyAllowed).plainScalar =
      .ok { waiting fuel released count (i.close c.column).2 c' g.broken
          ((i.close c.column).1 ++ [.scalar .plain text]) with
        pending := if keyAllowed then [keyAt count i c] else [] } := by
  have hscalar : ∀ pending, (arrived fuel released count i c keyAllowed).saveKey =
      .ok { arrived fuel released count i c keyAllowed with pending } →
      (arrived fuel released count i c keyAllowed).plainScalar =
        (readPlain false ((i.close c.column).2.inner + 1).toNat fuel .empty c).bind
          fun read => .ok { waiting fuel released count (i.close c.column).2 read.2.2 read.2.1.broken
            ((i.close c.column).1 ++ [.scalar .plain read.1]) with pending } := by
    intro pending hsave
    rw [plainScalar, hsave]
    rfl
  rw [hscalar (if keyAllowed then [keyAt count i c] else []), hread]
  · rfl
  · cases keyAllowed <;> rfl

/-- A plain scalar on the rest of a line is no key. -/
theorem plainScalar_arrived {lines : List Line} {text : List Char}
    (hlines : ∀ line ∈ lines, line.isSimple = true) (htext : isInline true text = true)
    (hstart : IsWordStart text) (hrest : c.rest = text ++ '\n' :: Line.text lines)
    (hpositive : 0 ≤ i.inner) (hcolumn : i.inner < c.column)
    (htarget : (Line.target lines).1 ≤ i.inner) (hfuel : c.rest.length < fuel) :
    ∃ c' : Cursor, c'.LeadsTo lines ∧
      (arrived fuel released count i c keyAllowed).plainScalar.bind dropStaleKeys =
        .ok (waiting fuel released count i c' true [.scalar .plain text]) := by
  have hclose := Indents.close_of_le (Int.le_of_lt hcolumn)
  have hinside : 0 < (i.inner + 1).toNat := by omega
  have hright : (i.inner + 1).toNat ≤ c.column := by omega
  have hleft : (Line.target lines).1 < (i.inner + 1).toNat := by omega
  obtain ⟨g, c', hread, hbroken, hleads, hline⟩ :=
    readPlain_inline hlines htext hstart hrest hinside hright hleft hfuel .empty
  refine ⟨c', hleads, ?_⟩
  rw [plainScalar_eq (by rw [hclose]; exact hread), hbroken, hclose]
  -- the cursor is on a later line, so the text can be no key any more
  apply dropStaleKeys_waiting
  intro key hkey
  cases keyAllowed with
  | false => cases hkey
  | true =>
    rw [List.mem_singleton.mp hkey]
    refine ⟨hline, ?_⟩
    show ((i.close c.column).2.inner == (c.column : ℤ)) = false
    rw [hclose, beq_eq_false_iff_ne]
    exact Int.ne_of_lt hcolumn

/-! ## Keys -/

/-- A scan behind a scalar that may be a key. -/
def keyed (fuel : ℕ) (released : List Token) (i : Indents) (c : Cursor) (name : List Char)
    (key : PendingKey) : Scan :=
  { waiting fuel released key.number i c false [.scalar .plain name] with pending := [key] }

/-- On one line and within 1024 characters a key can still come. -/
theorem dropStaleKeys_eq_self (s : Scan)
    (h : ∀ key ∈ s.pending, s.cursor.line ≤ key.line ∧ s.cursor.offset ≤ key.offset + 1024) :
    s.dropStaleKeys = .ok s := by
  have hfresh : ∀ key ∈ s.pending, isStale s.cursor key = false := by
    intro key hkey
    rw [isStale, decide_eq_false (Nat.not_lt.mpr (h key hkey).1),
      decide_eq_false (Nat.not_lt.mpr (h key hkey).2)]
    rfl
  have hany : (s.pending.any fun key => isStale s.cursor key && key.required) = false := by
    rw [List.any_eq_false]
    intro key hkey
    rw [hfresh key hkey]
    exact Bool.false_ne_true
  have hfilter : (s.pending.filter fun key => !isStale s.cursor key) = s.pending := by
    rw [List.filter_eq_self]
    intro key hkey
    rw [hfresh key hkey]
    rfl
  rw [dropStaleKeys_eq, hany, hfilter]
  rfl

theorem skipToToken_eq_self (steps : ℕ) (s : Scan) (h : IsTokenStart s.cursor.rest) :
    s.skipToToken steps = s := by
  cases steps with
  | zero => rfl
  | succ steps =>
    have hskip : ∀ tabs : Bool,
        (s.cursor.skipWhile fun x => x == ' ' || (tabs && x == '\t')) = s.cursor := by
      intro tabs
      apply Cursor.skipWhile_eq (show s.cursor.rest = [] ++ s.cursor.rest from rfl) nofun
      intro x hx
      have hblank := (h.isWordStart x hx).1
      rw [isBlank, Bool.or_eq_false_iff] at hblank
      rw [hblank.1, hblank.2, Bool.and_false, Bool.or_false]
    have hbreak : s.cursor.atBreak = false := by
      unfold Cursor.atBreak Cursor.next?
      cases hhead : s.cursor.rest.head? with
      | none => rfl
      | some x => exact (h.isWordStart x hhead).2
    rw [skipToToken, Cursor.skipByteOrderMark_eq h.noMark, hskip, Cursor.next?,
      beq_eq_false_iff_ne.mpr h.noComment, if_neg Bool.false_ne_true, hbreak]
    rfl

theorem closeBlocks_eq_self (outers : List ℤ) (s : Scan) {column : ℤ} (h : s.indent ≤ column) :
    closeBlocks column outers s = s := by
  cases outers with
  | nil => rfl
  | cons outer outers => rw [closeBlocks, if_neg (Int.not_lt.mpr h)]

theorem insert_waiting (pending : List PendingKey) (queue : List Token) (t : Token) :
    { waiting fuel released count i c keyAllowed queue with pending }.insert count t =
      { waiting fuel released count i c keyAllowed (t :: queue) with pending } := by
  show { waiting fuel released count i c keyAllowed
    (queue.take (count - count) ++ t :: queue.drop (count - count)) with pending } = _
  rw [Nat.sub_self]
  rfl

/-- The start of a block goes in front of what waits behind the last token released. -/
theorem indentTo_front (pending : List PendingKey) (queue : List Token) (column : ℕ) (t : Token) :
    { waiting fuel released count i c keyAllowed queue with pending }.indentTo column (some count) t =
      { waiting fuel released count (i.begin column t).2 c keyAllowed
        ((i.begin column t).1 ++ queue) with pending } := by
  rw [Indents.begin]
  by_cases hle : (column : ℤ) ≤ i.inner
  · rw [indentTo_of_le _ hle, if_pos hle]
    rfl
  · rw [indentTo_of_lt _ rfl hle, if_neg hle]
    show { waiting fuel released count ⟨column, i.inner :: i.outer⟩ c keyAllowed queue with
      pending }.insert count t = _
    rw [insert_waiting]
    rfl

/-- The colon behind a name makes it a key, and opens a mapping at its column unless there is one. -/
theorem fetch_colon {name : List Char} {key : PendingKey} (hrest : c.rest = ':' :: rest)
    (hword : endsWord rest.head? = true) (hline : c.line = key.line)
    (hoffset : c.offset ≤ key.offset + 1024) (hdepth : key.depth = 0)
    (hcolumn : i.inner ≤ c.column) :
    (keyed fuel released i c name key).fetch =
      .ok (waiting fuel released key.number (i.begin key.column .blockMappingStart).2 (c.skip 1) false
        ((i.begin key.column .blockMappingStart).1 ++ [.key, .scalar .plain name, .value])) := by
  have htoken : IsTokenStart c.rest := by
    rw [hrest]
    refine ⟨?_, fun heq => absurd (Option.some.inj heq) (by decide),
      fun heq => absurd (Option.some.inj heq) (by decide)⟩
    rintro _ ⟨⟩
    exact ⟨rfl, rfl⟩
  have hskip : (keyed fuel released i c name key).skipToToken fuel = keyed fuel released i c name key :=
    skipToToken_eq_self fuel _ htoken
  -- the name stands on this line and not too far back, so it can still be a key
  have hdrop : (keyed fuel released i c name key).dropStaleKeys =
      .ok (keyed fuel released i c name key) := by
    apply dropStaleKeys_eq_self
    intro pending hpending
    rw [List.mem_singleton.mp hpending]
    exact ⟨Nat.le_of_eq hline, hoffset⟩
  -- the colon is not left of the block it stands in
  have hclose : (keyed fuel released i c name key).unindentTo c.column =
      keyed fuel released i c name key :=
    closeBlocks_eq_self i.outer (keyed fuel released i c name key) hcolumn
  have hfetch : (keyed fuel released i c name key).fetch =
      (keyed fuel released i c name key).valueMarker := by
    have hcursor : (keyed fuel released i c name key).cursor = c := rfl
    have hfuel : (keyed fuel released i c name key).fuel = fuel := rfl
    have hwhole : (keyed fuel released i c name key).cutShort = false := rfl
    simp [fetch, hfuel, hskip, hdrop, hcursor, hclose, hwhole, hrest, hword, startsMarker, bind,
      Except.bind]
  have hsplit : (keyed fuel released i c name key).splitKey = (some key, []) := by
    show (if key.depth = 0 then (some key, []) else _) = _
    rw [if_pos hdepth]
  rw [hfetch, valueMarker, hsplit]
  dsimp only
  rw [show (keyed fuel released i c name key).insert key.number .key = _ from
    insert_waiting [key] [.scalar .plain name] .key, indentTo_front]
  show Except.ok (waiting fuel released key.number (i.begin key.column .blockMappingStart).2 (c.skip 1)
    false (((i.begin key.column .blockMappingStart).1 ++ [.key, .scalar .plain name]) ++ [.value])) = _
  rw [List.append_assoc]
  rfl

/-! ## Steps of a run -/

/-- What waits in front of a scalar that may be a key is released without it. -/
theorem release_key {name : List Char} {key : PendingKey}
    (hnumber : key.number = count + queue.length) :
    { waiting fuel released count i c false (queue ++ [Token.scalar .plain name]) with
      pending := [key] }.release (queue ++ [Token.scalar .plain name]) =
      keyed fuel (queue.reverse ++ released) i c name key := by
  have hrelease := release_append
    { waiting fuel released count i c false (queue ++ [Token.scalar .plain name]) with
      pending := [key] } queue [Token.scalar .plain name]
  rw [hrelease, release]
  · show (if ([key].any fun key => key.number == count + queue.length) = true then _ else _) = _
    rw [List.any_cons, List.any_nil, Bool.or_false, beq_iff_eq.mpr hnumber, if_pos rfl, keyed, hnumber]
    rfl
  · intro pending hpending
    rw [List.mem_singleton.mp hpending, hnumber]
    exact Nat.le_refl _

/-- A scan that has come to the end of the text. -/
def ended (fuel : ℕ) (released : List Token) (count : ℕ) (i : Indents) (c : Cursor)
    (queue : List Token) : Scan :=
  { waiting fuel released count i c false queue with finished := true }

theorem release_ended :
    (ended fuel released count i c queue).release queue =
      ended fuel (queue.reverse ++ released) (count + queue.length) i c [] := by
  have happend := release_append (ended fuel released count i c queue) queue [] nofun
  rw [List.append_nil] at happend
  exact happend

/-- Finishing closes all blocks and ends the stream. -/
theorem finish_waiting (hcolumn : c.column = 0) :
    (waiting fuel released count i c keyAllowed queue).finish =
      .ok (ended fuel released count (i.close (-1)).2 c
        (queue ++ (i.close (-1)).1 ++ [.streamEnd])) := by
  have hfinish : (waiting fuel released count i c keyAllowed queue).finish =
      ((waiting fuel released count i (if c.column == 0 then c else { c with
        line := c.line + 1, column := 0 }) keyAllowed queue).unindentTo (-1)).dropKey.bind fun s =>
        .ok { s.add .streamEnd with keyAllowed := false, finished := true } := rfl
  have hclose : (waiting fuel released count i c keyAllowed queue).unindentTo (-1) =
      waiting fuel released count (i.close (-1)).2 c keyAllowed (queue ++ (i.close (-1)).1) :=
    closeBlocks_eq (-1) queue
  rw [hfinish, hcolumn, if_pos (beq_self_eq_true 0), hclose]
  rfl

section

variable (hskip : (between fuel released count i c keyAllowed).skipToToken fuel =
  between fuel released count i c' keyAllowed')

include hskip

/-- At the end of the text all blocks are closed. -/
theorem Adds.of_end (hrest : c'.rest = []) (hcolumn : c'.column = 0) :
    (between fuel released count i c keyAllowed).Adds 1
      ((i.close 0).1 ++ ((i.close 0).2.close (-1)).1 ++ [.streamEnd]) := by
  have hfetch : (between fuel released count i c keyAllowed).fetch.bind dropStaleKeys =
      .ok (ended fuel released count ((i.close 0).2.close (-1)).2 c'
        ((i.close 0).1 ++ ((i.close 0).2.close (-1)).1 ++ [.streamEnd])) := by
    rw [fetch_end hskip hrest, arrived, hcolumn]
    exact congrArg (Except.bind · dropStaleKeys) (finish_waiting hcolumn)
  intro steps hsteps
  obtain ⟨steps, rfl⟩ : ∃ n, steps = n + 1 := ⟨steps - 1, by omega⟩
  rw [run_of_finished hfetch rfl release_ended rfl]
  show ((_ ++ released).reverse, (none : Option SyntaxFault)) = _
  rw [List.reverse_append, List.reverse_reverse]
  rfl

end

theorem startsPlain_of_isAlpha (hx : x.isAlpha = true) (after : Option Char) :
    startsPlain false x after = true := by
  have hstart := (isTokenStart_of_isAlpha hx []).isWordStart x rfl
  have hother : "-?:".toList.contains x = false := by
    simp [isAlpha_ne hx]
  have hsign : ",[]\x7b\x7d#&*!|>'\"%@\x60".toList.contains x = false := by
    simp [isAlpha_ne hx]
  rw [startsPlain, hother, hstart.1, hstart.2, hsign]
  rfl

section

variable (hskip : (between fuel released count i c keyAllowed).skipToToken fuel =
  between fuel released count i c' true)

include hskip

theorem Adds.of_dash (hrest : c'.rest = '-' :: ' ' :: rest)
    (h : ∀ released count, (between fuel released count (i.enter c'.column .blockSequenceStart).2
      (c'.skip 1) true).Adds steps out) :
    (between fuel released count i c keyAllowed).Adds (steps + 1)
      ((i.enter c'.column .blockSequenceStart).1 ++ [.blockEntry] ++ out) := by
  have hfetch : (between fuel released count i c keyAllowed).fetch.bind dropStaleKeys =
      .ok (waiting fuel released count (i.enter c'.column .blockSequenceStart).2 (c'.skip 1) true
        ((i.enter c'.column .blockSequenceStart).1 ++ [.blockEntry])) := by
    rw [fetch_dash hskip hrest, blockEntry_arrived]
    rfl
  exact Adds.of_waiting hfetch h

theorem Adds.of_key {name : List Char} (hgrounded : i.Grounded) (hrest : c'.rest = name ++ ':' :: rest)
    (hname : isSimpleName name = true) (hword : endsWord rest.head? = true) (hfuel : 0 < fuel)
    (h : ∀ released count, (between fuel released count (i.enter c'.column .blockMappingStart).2
      (c'.skip (name.length + 1)) false).Adds steps out) :
    (between fuel released count i c keyAllowed).Adds (steps + 2)
      ((i.enter c'.column .blockMappingStart).1 ++ [.key, .scalar .plain name, .value] ++ out) := by
  obtain ⟨fuel, rfl⟩ : ∃ n, fuel = n + 1 := ⟨fuel - 1, by omega⟩
  obtain ⟨x, letters, rfl, halpha, hsize⟩ := Line.exists_of_isSimpleName hname
  have hx := halpha x List.mem_cons_self
  have hread : readPlain false ((i.close c'.column).2.inner + 1).toNat (fuel + 1) .empty c' =
      .ok (x :: letters, .empty, c'.skip (x :: letters).length) :=
    readPlain_name halpha (List.cons_ne_nil _ _) hrest hword
  have hbehind : (c'.skip (x :: letters).length).rest = ':' :: rest := Cursor.rest_skip hrest
  have hoffset : (c'.skip (x :: letters).length).offset ≤ c'.offset + 1024 := by
    show c'.offset + Text.size (c'.rest.take (x :: letters).length) ≤ _
    rw [hrest, List.take_left]
    exact Nat.add_le_add_left hsize _
  have hcolumn : (i.close c'.column).2.inner ≤ (c'.skip (x :: letters).length).column :=
    Int.le_trans (hgrounded.close c'.column).2 (Int.ofNat_le.mpr (Nat.le_add_right _ _))
  have hdash : (x == '-' && endsWord (letters ++ ':' :: rest).head?) = false := by
    rw [beq_eq_false_iff_ne.mpr (isAlpha_ne hx rfl), Bool.false_and]
  -- the name waits for its colon while the ends of blocks in front of it are released
  have hfetch : (between (fuel + 1) released count i c keyAllowed).fetch.bind dropStaleKeys =
      .ok { waiting (fuel + 1) released count (i.close c'.column).2
          (c'.skip (x :: letters).length) false
          ((i.close c'.column).1 ++ [Token.scalar .plain (x :: letters)]) with
        pending := [keyAt count i c'] } := by
    rw [fetch_plain hskip hrest (startsPlain_of_isAlpha hx _) hdash (.inr hx),
      plainScalar_eq hread]
    apply dropStaleKeys_eq_self
    intro key hkey
    rw [List.mem_singleton.mp hkey]
    exact ⟨Nat.le_refl _, hoffset⟩
  have hcolon : ∀ released, (keyed (fuel + 1) released (i.close c'.column).2
      (c'.skip (x :: letters).length) (x :: letters) (keyAt count i c')).Adds (steps + 1)
        (((i.close c'.column).2.begin c'.column .blockMappingStart).1 ++
          [.key, .scalar .plain (x :: letters), .value] ++ out) := by
    intro released
    have hfetch : (keyed (fuel + 1) released (i.close c'.column).2 (c'.skip (x :: letters).length)
        (x :: letters) (keyAt count i c')).fetch.bind dropStaleKeys =
        .ok (waiting (fuel + 1) released (keyAt count i c').number
          (i.enter c'.column .blockMappingStart).2 (c'.skip ((x :: letters).length + 1)) false
          (((i.close c'.column).2.begin c'.column .blockMappingStart).1 ++
            [.key, .scalar .plain (x :: letters), .value])) := by
      rw [fetch_colon hbehind hword rfl hoffset rfl hcolumn, Cursor.skip_skip]
      rfl
    exact Adds.of_waiting hfetch h
  have hout : (i.enter c'.column .blockMappingStart).1 = (i.close c'.column).1 ++
      ((i.close c'.column).2.begin c'.column .blockMappingStart).1 := rfl
  rw [hout, List.append_assoc, List.append_assoc, ← List.append_assoc _ _ out]
  exact Adds.of_fetch hfetch rfl (release_key rfl) rfl rfl (hcolon _)

end

theorem Adds.of_quoted {text : List Char}
    (hskip : (between fuel released count i c keyAllowed).skipToToken fuel =
      between fuel released count i c' false)
    (htext : isQuotable text = true) (hrest : c'.rest = '"' :: (text ++ '"' :: rest))
    (hcolumn : i.inner ≤ c'.column) (hfuel : c'.rest.length < fuel)
    (h : ∀ released count,
      (between fuel released count i (c'.skip (text.length + 2)) false).Adds steps out) :
    (between fuel released count i c keyAllowed).Adds (steps + 1)
      (.scalar .doubleQuoted text :: out) := by
  have hfetch : (between fuel released count i c keyAllowed).fetch.bind dropStaleKeys =
      .ok (waiting fuel released count i (c'.skip (text.length + 2)) false
        [.scalar .doubleQuoted text]) := by
    rw [fetch_quote hskip hrest, quotedScalar_arrived htext hrest hfuel,
      Indents.close_of_le hcolumn]
    rfl
  exact Adds.of_waiting hfetch h

/-- What starts a plain scalar is no blank, no break and no comment. -/
theorem space_of_startsPlain {after : Option Char} (h : startsPlain false x after = true) :
    isBlank x = false ∧ isBreak x = false ∧ x ≠ '#' := by
  have hcomment := (ne_of_startsPlain h).1 '#' (by decide)
  cases hother : "-?:".toList.contains x with
  | true =>
    have hspaces : ("-?:".toList.all fun y => !isBlank y && !isBreak y) = true := by
      decide
    have hspace := List.all_eq_true.mp hspaces x (List.contains_iff_mem.mp hother)
    rw [Bool.and_eq_true, Bool.not_eq_true', Bool.not_eq_true'] at hspace
    exact ⟨hspace.1, hspace.2, beq_eq_false_iff_ne.mp hcomment⟩
  | false =>
    rw [startsPlain, hother, if_neg Bool.false_ne_true, Bool.not_eq_true', Bool.or_eq_false_iff,
      Bool.or_eq_false_iff] at h
    exact ⟨h.1.1, h.1.2, beq_eq_false_iff_ne.mp hcomment⟩

theorem wordStart_of_isPlainText {text : List Char} (h : isPlainText text = true) (tail : List Char) :
    IsWordStart (text ++ tail) ∧ (text ++ tail).head? ≠ some '#' := by
  cases text with
  | nil => cases h
  | cons x text =>
    rw [isPlainText, Bool.and_eq_true, Bool.and_eq_true] at h
    obtain ⟨hblank, hbreak, hcomment⟩ := space_of_startsPlain h.1.1
    refine ⟨?_, fun heq => hcomment (Option.some.inj heq)⟩
    rintro _ ⟨⟩
    exact ⟨hblank, hbreak⟩

/-- The end of the line is as good as the end of the text. -/
theorem startsPlain_line (x : Char) (text tail : List Char) :
    startsPlain false x (text ++ '\n' :: tail).head? = startsPlain false x text.head? := by
  cases text <;> rfl

theorem Adds.of_plain {lines : List Line} {text : List Char}
    (hskip : (between fuel released count i c keyAllowed).skipToToken fuel =
      between fuel released count i c' keyAllowed')
    (hlines : ∀ line ∈ lines, line.isSimple = true) (htext : isPlainText text = true)
    (hrest : c'.rest = text ++ '\n' :: Line.text lines) (hpositive : 0 ≤ i.inner)
    (hcolumn : i.inner < c'.column) (htarget : (Line.target lines).1 ≤ i.inner)
    (hfuel : c'.rest.length < fuel)
    (h : ∀ released count c, c.LeadsTo lines →
      (between fuel released count i c true).Adds steps out) :
    (between fuel released count i c keyAllowed).Adds (steps + 1) (.scalar .plain text :: out) := by
  obtain ⟨x, text, rfl⟩ : ∃ x rest, text = x :: rest := by
    cases text with
    | nil => cases htext
    | cons x rest => exact ⟨x, rest, rfl⟩
  -- the text starts a word, which decides what the scanner takes it for
  have hword := (wordStart_of_isPlainText htext []).1
  rw [List.append_nil] at hword
  rw [isPlainText, Bool.and_eq_true, Bool.and_eq_true, Bool.not_eq_true'] at htext
  obtain ⟨⟨hstart, hdash⟩, hinline⟩ := htext
  have hfetch : (between fuel released count i c keyAllowed).fetch =
      (arrived fuel released count i c' keyAllowed').plainScalar := by
    apply fetch_plain hskip hrest
    · rw [← startsPlain_line x text (Line.text lines)] at hstart
      exact hstart
    · cases text <;> exact hdash
    · exact .inl (by omega)
  obtain ⟨c'', hleads, hplain⟩ : ∃ c'' : Cursor, c''.LeadsTo lines ∧
      (between fuel released count i c keyAllowed).fetch.bind dropStaleKeys =
        .ok (waiting fuel released count i c'' true [.scalar .plain (x :: text)]) := by
    rw [hfetch]
    exact plainScalar_arrived hlines hinline hword hrest hpositive hcolumn htarget hfuel
  exact Adds.of_waiting hplain fun released count => h released count c'' hleads

end

end Scan

end Provision.Yaml
