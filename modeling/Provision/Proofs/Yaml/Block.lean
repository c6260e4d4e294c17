import Mathlib.Data.Nat.Notation
import Provision.Yaml.Document

/-!
# Trees in block notation

A tree without anchors, tags and flow collections is spelt with the start and end of every block made
explicit. Its tokens are read as its events, and these build it up again, so a text with these tokens
is a document that is the tree and nothing else.
-/

namespace Provision.Yaml

/-- A tree whose keys are plain scalars. -/
inductive Block
  | scalar (style : ScalarStyle) (text : List Char)
  | sequence (items : List Block)
  | mapping (entries : List (List Char × Block))

namespace Block

mutual

def tokens : Block → List Token
  | .scalar style text => [.scalar style text]
  | .sequence items => .blockSequenceStart :: itemTokens items ++ [.blockEnd]
  | .mapping entries => .blockMappingStart :: entryTokens entries ++ [.blockEnd]

def itemTokens : List Block → List Token
  | [] => []
  | block :: items => .blockEntry :: block.tokens ++ itemTokens items

def entryTokens : List (List Char × Block) → List Token
  | [] => []
  | (key, block) :: entries =>
    .key :: .scalar .plain key :: .value :: block.tokens ++ entryTokens entries

end

mutual

def events : Block → List Event
  | .scalar style text => [.scalar ⟨none, none⟩ style text]
  | .sequence items => .sequenceStart ⟨none, none⟩ :: (itemEvents items ++ [.sequenceEnd])
  | .mapping entries => .mappingStart ⟨none, none⟩ :: (entryEvents entries ++ [.mappingEnd])

def itemEvents : List Block → List Event
  | [] => []
  | block :: items => block.events ++ itemEvents items

def entryEvents : List (List Char × Block) → List Event
  | [] => []
  | (key, block) :: entries =>
    .scalar ⟨none, none⟩ .plain key :: (block.events ++ entryEvents entries)

end

mutual

def node : Block → Node
  | .scalar style text => .scalar none ⟨String.ofList text, none, style⟩
  | .sequence items => .sequence none none (itemNodes items)
  | .mapping entries => .mapping none none (entryNodes entries)

def itemNodes : List Block → List Node
  | [] => []
  | block :: items => block.node :: itemNodes items

def entryNodes : List (List Char × Block) → List (Node × Node)
  | [] => []
  | (key, block) :: entries =>
    (.scalar none ⟨String.ofList key, none, .plain⟩, block.node) :: entryNodes entries

end

mutual

/-- A block has no more events than tokens. -/
theorem length_events_le (block : Block) : block.events.length ≤ block.tokens.length := by
  cases block with
  | scalar style text => exact Nat.le_refl _
  | sequence items =>
    have hitems := length_itemEvents_le items
    simp only [events, tokens, List.length_cons, List.length_append]
    omega
  | mapping entries =>
    have hentries := length_entryEvents_le entries
    simp only [events, tokens, List.length_cons, List.length_append]
    omega

theorem length_itemEvents_le (items : List Block) :
    (itemEvents items).length ≤ (itemTokens items).length := by
  cases items with
  | nil => exact Nat.le_refl _
  | cons block items =>
    have hblock := length_events_le block
    have hitems := length_itemEvents_le items
    simp only [itemEvents, itemTokens, List.length_cons, List.length_append]
    omega

theorem length_entryEvents_le (entries : List (List Char × Block)) :
    (entryEvents entries).length ≤ (entryTokens entries).length := by
  cases entries with
  | nil => exact Nat.le_refl _
  | cons entry entries =>
    obtain ⟨key, block⟩ := entry
    have hblock := length_events_le block
    have hentries := length_entryEvents_le entries
    simp only [entryEvents, entryTokens, List.length_cons, List.length_append]
    omega

end

end Block

/-! ## Reading the tokens -/

namespace Reader

/-- Whether a reader gives these events and is another reader then. -/
def Reads (r : Reader) (events : List Event) (r' : Reader) : Prop :=
  ∀ fuel, r.run (events.length + fuel) = (events ++ (r'.run fuel).1, (r'.run fuel).2)

/-- Whether a step of a reader gives the first of these events, and the reader after it the others. -/
def Delivers (result : Step) (events : List Event) (r' : Reader) : Prop :=
  ∃ first others r, events = first :: others ∧ first ≠ .streamEnd ∧ result = .ok (first, r) ∧
    r.Reads others r'

variable {r r' r'' : Reader} {event : Event} {events more : List Event}

theorem Reads.refl (r : Reader) : r.Reads [] r := by
  intro fuel
  rw [List.length_nil, Nat.zero_add]
  rfl

theorem Reads.trans (h : r.Reads events r') (h' : r'.Reads more r'') :
    r.Reads (events ++ more) r'' := by
  intro fuel
  rw [List.length_append, Nat.add_assoc, h, h', List.append_assoc]

/-- A step that delivers events is a reading of them. -/
theorem Delivers.reads (h : Delivers r.step events r') : r.Reads events r' := by
  obtain ⟨first, others, next, rfl, hfirst, hstep, hothers⟩ := h
  intro fuel
  rw [List.length_cons, Nat.add_right_comm, run, hstep]
  cases first with
  | streamEnd => exact absurd rfl hfirst
  | _ =>
    dsimp only
    rw [hothers fuel]
    rfl

theorem Delivers.of_ok (hevent : event ≠ .streamEnd) (h : r.Reads events r') :
    Delivers (.ok (event, r)) (event :: events) r' :=
  ⟨event, events, r, rfl, hevent, rfl, h⟩

variable {rest : List Token} {expect : List Expect} {handles : List (List Char × List UInt8)}

/-- An entry of a block begins with its own tokens. -/
theorem step_blockEntry (block : Block) :
    step ⟨.blockEntry :: (block.tokens ++ rest), .blockEntry :: expect, handles⟩ =
      node ⟨block.tokens ++ rest, .node :: .blockEntry :: expect, handles⟩ true false := by
  cases block <;> rfl

theorem step_blockValue (block : Block) :
    step ⟨.value :: (block.tokens ++ rest), .blockValue :: expect, handles⟩ =
      node ⟨block.tokens ++ rest, .node :: .blockKey :: expect, handles⟩ true true := by
  cases block <;> rfl

mutual

/-- The tokens of a block are read as its events, whatever comes behind them. -/
theorem delivers_node (block : Block) (rest : List Token) (expect : List Expect)
    (handles : List (List Char × List UInt8)) (indentless : Bool) :
    Delivers (node ⟨block.tokens ++ rest, .node :: expect, handles⟩ true indentless) block.events
      ⟨rest, expect, handles⟩ := by
  cases block with
  | scalar style text => exact Delivers.of_ok nofun (Reads.refl _)
  | sequence items =>
    have hitems := reads_items items rest expect handles
    rw [Block.tokens, List.append_assoc]
    exact Delivers.of_ok nofun hitems
  | mapping entries =>
    have hentries := reads_entries entries rest expect handles
    rw [Block.tokens, List.append_assoc]
    exact Delivers.of_ok nofun hentries

/-- The items of a block are read one after the other up to its end. -/
theorem reads_items (items : List Block) (rest : List Token) (expect : List Expect)
    (handles : List (List Char × List UInt8)) :
    Reads ⟨Block.itemTokens items ++ .blockEnd :: rest, .blockEntry :: expect, handles⟩
      (Block.itemEvents items ++ [.sequenceEnd]) ⟨rest, expect, handles⟩ := by
  cases items with
  | nil =>
    have hend : Delivers (step ⟨.blockEnd :: rest, .blockEntry :: expect, handles⟩) [.sequenceEnd]
        ⟨rest, expect, handles⟩ := Delivers.of_ok nofun (Reads.refl _)
    exact hend.reads
  | cons block items =>
    have hblock := delivers_node block (Block.itemTokens items ++ .blockEnd :: rest)
      (.blockEntry :: expect) handles false
    rw [← step_blockEntry] at hblock
    have hitems := hblock.reads.trans (reads_items items rest expect handles)
    rw [Block.itemTokens, Block.itemEvents, List.append_assoc, List.append_assoc]
    exact hitems

/-- The entries of a block are read one after the other up to its end. -/
theorem reads_entries (entries : List (List Char × Block)) (rest : List Token)
    (expect : List Expect) (handles : List (List Char × List UInt8)) :
    Reads ⟨Block.entryTokens entries ++ .blockEnd :: rest, .blockKey :: expect, handles⟩
      (Block.entryEvents entries ++ [.mappingEnd]) ⟨rest, expect, handles⟩ := by
  cases entries with
  | nil =>
    have hend : Delivers (step ⟨.blockEnd :: rest, .blockKey :: expect, handles⟩) [.mappingEnd]
        ⟨rest, expect, handles⟩ := Delivers.of_ok nofun (Reads.refl _)
    exact hend.reads
  | cons entry entries =>
    obtain ⟨key, block⟩ := entry
    have hblock := delivers_node block (Block.entryTokens entries ++ .blockEnd :: rest)
      (.blockKey :: expect) handles true
    rw [← step_blockValue] at hblock
    have hentries := hblock.reads.trans (reads_entries entries rest expect handles)
    have hkey : Delivers (step ⟨.key :: .scalar .plain key :: .value :: (block.tokens ++
        (Block.entryTokens entries ++ .blockEnd :: rest)), .blockKey :: expect, handles⟩)
        (.scalar ⟨none, none⟩ .plain key :: (block.events ++ (Block.entryEvents entries ++
          [.mappingEnd]))) ⟨rest, expect, handles⟩ := Delivers.of_ok nofun hentries
    simp only [Block.entryTokens, Block.entryEvents, List.cons_append, List.append_assoc]
    exact hkey.reads

end

/-- The events of a stream with a tree as its only document. -/
theorem run_tokens (block : Block) {fuel : ℕ} (hfuel : block.events.length + 3 ≤ fuel) :
    run fuel ⟨block.tokens ++ [.streamEnd], [.implicitDocument], []⟩ =
      (.documentStart :: (block.events ++ [.documentEnd, .streamEnd]), none) := by
  have hstart : step ⟨block.tokens ++ [.streamEnd], [.implicitDocument], []⟩ =
      .ok (.documentStart, ⟨block.tokens ++ [.streamEnd], [.node, .documentEnd], defaultHandles⟩) := by
    cases block <;> rfl
  have hend : Delivers (step ⟨[.streamEnd], [.documentEnd], defaultHandles⟩) [.documentEnd]
      ⟨[.streamEnd], [.document], []⟩ := Delivers.of_ok nofun (Reads.refl _)
  have hnode : Delivers (step ⟨block.tokens ++ [.streamEnd], [.node, .documentEnd], defaultHandles⟩)
      block.events ⟨[.streamEnd], [.documentEnd], defaultHandles⟩ :=
    delivers_node block [.streamEnd] [.documentEnd] defaultHandles false
  have hdocument : Delivers (step ⟨block.tokens ++ [.streamEnd], [.implicitDocument], []⟩)
      (.documentStart :: (block.events ++ [.documentEnd])) ⟨[.streamEnd], [.document], []⟩ := by
    rw [hstart]
    exact Delivers.of_ok nofun (hnode.reads.trans hend.reads)
  -- the fuel is spent on the events, one each, and on the end
  obtain ⟨rest, rfl⟩ :
      ∃ rest, fuel = (Event.documentStart :: (block.events ++ [.documentEnd])).length + (rest + 1) := by
    refine ⟨fuel - (block.events.length + 3), ?_⟩
    rw [List.length_cons, List.length_append, List.length_singleton]
    omega
  rw [hdocument.reads]
  show (_ :: ((block.events ++ [.documentEnd]) ++ [.streamEnd]), none) = _
  rw [List.append_assoc]
  rfl

end Reader

/-! ## Building the tree -/

namespace Builder

mutual

theorem follow_events (block : Block) (fault : Option SyntaxFault) (more : List Event) (b : Builder) :
    ∃ size, follow fault (block.events ++ more) b =
      follow fault more ({ b with size }.add block.node) := by
  cases block with
  | scalar style text => exact ⟨b.size + 1, rfl⟩
  | sequence items =>
    rw [Block.events, List.cons_append, List.append_assoc]
    exact follow_itemEvents items fault more [] { b with size := b.size + 1 }
  | mapping entries =>
    rw [Block.events, List.cons_append, List.append_assoc]
    exact follow_entryEvents entries fault more [] { b with size := b.size + 1 }

/-- The events of items build the items of a sequence. -/
theorem follow_itemEvents (items : List Block) (fault : Option SyntaxFault) (more : List Event)
    (before : List Node) (b : Builder) : ∃ size,
      follow fault (Block.itemEvents items ++ .sequenceEnd :: more)
        { b with frames := .sequence none none before :: b.frames } =
      follow fault more ({ b with size }.add
        (.sequence none none (before.reverse ++ Block.itemNodes items))) := by
  cases items with
  | nil =>
    refine ⟨b.size + 1, ?_⟩
    rw [Block.itemNodes, List.append_nil]
    rfl
  | cons block items =>
    obtain ⟨size, hblock⟩ := follow_events block fault
      (Block.itemEvents items ++ .sequenceEnd :: more)
      { b with frames := .sequence none none before :: b.frames }
    obtain ⟨size', hitems⟩ := follow_itemEvents items fault more (block.node :: before)
      { b with size }
    refine ⟨size', ?_⟩
    rw [Block.itemEvents, List.append_assoc, hblock]
    refine hitems.trans ?_
    rw [List.reverse_cons, List.append_assoc]
    rfl

/-- The events of entries build the entries of a mapping. -/
theorem follow_entryEvents (entries : List (List Char × Block)) (fault : Option SyntaxFault)
    (more : List Event) (before : List (Node × Node)) (b : Builder) : ∃ size,
      follow fault (Block.entryEvents entries ++ .mappingEnd :: more)
        { b with frames := .mapping none none before none :: b.frames } =
      follow fault more ({ b with size }.add
        (.mapping none none (before.reverse ++ Block.entryNodes entries))) := by
  cases entries with
  | nil =>
    refine ⟨b.size + 1, ?_⟩
    rw [Block.entryNodes, List.append_nil]
    rfl
  | cons entry entries =>
    obtain ⟨key, block⟩ := entry
    -- the key is read, so the block goes under it
    obtain ⟨size, hblock⟩ := follow_events block fault
      (Block.entryEvents entries ++ .mappingEnd :: more)
      { b with
        frames := .mapping none none before
          (some (.scalar none ⟨String.ofList key, none, .plain⟩)) :: b.frames
        size := b.size + 1 }
    obtain ⟨size', hentries⟩ := follow_entryEvents entries fault more
      ((.scalar none ⟨String.ofList key, none, .plain⟩, block.node) :: before) { b with size }
    refine ⟨size', ?_⟩
    rw [Block.entryEvents, List.cons_append, List.append_assoc]
    refine hblock.trans (hentries.trans ?_)
    rw [List.reverse_cons, List.append_assoc]
    rfl

end

end Builder

/-- A text with the tokens of a tree is a document that is the tree and nothing else. -/
theorem Document.ofText_of_tokens {text : String} {block : Block}
    (h : Yaml.tokens text.toList = (block.tokens ++ [.streamEnd], none)) :
    ∃ anchors size, Document.ofText text = ⟨some block.node, anchors, size, none, false⟩ := by
  have hlength := Block.length_events_le block
  have hevents : Yaml.events text.toList =
      (.documentStart :: (block.events ++ [.documentEnd, .streamEnd]), none) := by
    unfold Yaml.events
    rw [h]
    dsimp only
    rw [Reader.run_tokens block (by rw [List.length_append, List.length_singleton]; omega)]
  obtain ⟨size, hfollow⟩ := Builder.follow_events block none [.documentEnd, .streamEnd] .start
  have hdocument : Document.ofText text =
      (Builder.add { Builder.start with size } block.node).finished false := by
    unfold Document.ofText
    rw [hevents]
    exact hfollow
  rw [hdocument]
  exact ⟨_, _, rfl⟩

end Provision.Yaml
