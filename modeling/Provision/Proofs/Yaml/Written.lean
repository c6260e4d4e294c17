import Provision.Proofs.Yaml.Plain
import Provision.Yaml.Document

/-!
# Values as they are written

A value becomes a tree of nodes whose scalars ask for styles, and each scalar is written in the
style its text allows. A written scalar denotes the atom it was made for, whatever style that is
(`exists_scalar`), and a value has a written form unless it holds a lone key where no tag stands
over it (`Node.ofValue?_isSome`).
-/

namespace Provision.Yaml

/-! ## Scalars -/

theorem writtenStyle_of_plain {text : List Char} (h : (allowance text).plain = true)
    (inKey : Bool) : writtenStyle .plain text inKey = .plain := by
  have hlines : (allowance text).multiline = false := by
    simp only [allowance, Bool.and_eq_true, Bool.not_eq_true'] at h
    exact h.1.1.1.2
  simp only [writtenStyle, hlines, h, Bool.and_false, Bool.false_eq_true, if_false, if_true]

/-- Only a text that asks to stand plain is written plain. -/
theorem eq_plain_of_writtenStyle {style : ScalarStyle} {text : List Char} {inKey : Bool}
    (h : writtenStyle style text inKey = .plain) : style = .plain := by
  unfold writtenStyle at h
  dsimp only at h
  split at h
  · cases h
  -- every other style is replaced by a quoted one, if at all
  cases style with
  | plain => rfl
  | singleQuoted => dsimp only at h; split at h <;> cases h
  | doubleQuoted => cases h
  | literal => dsimp only at h; split at h <;> cases h
  | folded => dsimp only at h; split at h <;> cases h

/-- A text asks to stand plain only where it denotes itself. -/
theorem plainAtom_of_textStyle {s : String} (h : textStyle s = .plain) : plainAtom s = .text s := by
  unfold textStyle at h
  split at h
  · cases h
  split at h
  · next t ht => rw [ht, plainAtom_text ht]
  · cases h

/-- The scalar of a text denotes that text, in every style it may be written in. -/
theorem untagged_text (s : String) (tag : Option Tag) (inKey : Bool) :
    Scalar.untagged ⟨s, tag, writtenStyle (textStyle s) s.toList inKey⟩ = .text s := by
  unfold Scalar.untagged
  dsimp only
  split
  · next hplain => exact plainAtom_of_textStyle (eq_plain_of_writtenStyle hplain)
  · rfl

/-- The scalar of a text that can stand plain denotes what the text does. -/
theorem untagged_plain {text : String} (h : (allowance text.toList).plain = true)
    (tag : Option Tag) (inKey : Bool) :
    Scalar.untagged ⟨text, tag, writtenStyle .plain text.toList inKey⟩ = plainAtom text := by
  rw [writtenStyle_of_plain h]
  rfl

/-- The value of an atom is written as a scalar that denotes the atom. -/
theorem exists_scalar {atom : Atom} {value : Value} (h : Value.ofAtom? atom = some value)
    (hint : ∀ n, atom = .int n → IsInt64 n) : ∃ text style,
      (∀ tag, Node.ofValue? tag value = some (.scalar none ⟨text, tag, style⟩)) ∧
      ∀ tag inKey, Scalar.untagged ⟨text, tag, writtenStyle style text.toList inKey⟩ = atom := by
  cases atom with
  | wideInt n => cases h
  | null =>
    -- null and the flags have three texts in all, so these are checked
    cases h
    refine ⟨"null", .plain, fun tag => by rfl, fun tag inKey => ?_⟩
    rw [untagged_plain (by decide)]
    decide
  | bool b =>
    cases h
    refine ⟨if b then "true" else "false", .plain, fun tag => by rfl, fun tag inKey => ?_⟩
    rw [untagged_plain (by cases b <;> decide)]
    cases b <;> decide
  | int n =>
    cases h
    refine ⟨toString n, .plain, fun tag => by rfl, fun tag inKey => ?_⟩
    rw [untagged_plain (looksNumeric_int n).allowance_plain, plainAtom_int (hint n rfl)]
  | float x =>
    cases h
    refine ⟨x.text .document, .plain, fun tag => by rfl, fun tag inKey => ?_⟩
    rw [untagged_plain (plainAtom_float x).2, (plainAtom_float x).1]
  | text s =>
    cases h
    exact ⟨s, textStyle s, fun tag => by rfl, untagged_text s⟩

/-! ## Nodes -/

namespace Node

mutual

/-- The node with its scalars in the styles in which they are written, in a key on one line or
not. -/
def asWritten (inKey : Bool) : Node → Node
  | .scalar anchor s =>
    .scalar anchor { s with style := writtenStyle s.style s.text.toList inKey }
  | .sequence anchor tag items => .sequence anchor tag (itemsAsWritten items)
  | .mapping anchor tag entries => .mapping anchor tag (entriesAsWritten entries)
  | .alias target => .alias target
  | .cut => .cut

def itemsAsWritten : List Node → List Node
  | [] => []
  | item :: rest => asWritten false item :: itemsAsWritten rest

def entriesAsWritten : List (Node × Node) → List (Node × Node)
  | [] => []
  | (key, value) :: rest =>
    (asWritten (isSimpleKey key) key, asWritten false value) :: entriesAsWritten rest

end

/-- Whether the text of a node is scanned as a document of its own that holds the same tree, with
every scalar in the style in which it was printed. -/
structure Reproduced (root : Node) : Prop where
  root_eq : (Document.ofText root.toText).root = some (root.asWritten false)
  unbroken : (Document.ofText root.toText).brokenBy = none
  single : (Document.ofText root.toText).hasMore = false

end Node

/-! Trees are compared part by part, so that whether one is reproduced can be computed. -/

namespace Node

mutual

/-- Whether two nodes are equal. -/
def equals : Node → Node → Bool
  | .scalar anchor s, .scalar anchor' t => anchor == anchor' && s == t
  | .sequence anchor tag items, .sequence anchor' tag' items' =>
    anchor == anchor' && tag == tag' && itemsEqual items items'
  | .mapping anchor tag entries, .mapping anchor' tag' entries' =>
    anchor == anchor' && tag == tag' && entriesEqual entries entries'
  | .alias target, .alias target' => target == target'
  | .cut, .cut => true
  | _, _ => false

def itemsEqual : List Node → List Node → Bool
  | [], [] => true
  | item :: rest, item' :: rest' => equals item item' && itemsEqual rest rest'
  | _, _ => false

def entriesEqual : List (Node × Node) → List (Node × Node) → Bool
  | [], [] => true
  | (key, value) :: rest, (key', value') :: rest' =>
    equals key key' && equals value value' && entriesEqual rest rest'
  | _, _ => false

end

mutual

theorem eq_of_equals : ∀ {a b : Node}, a.equals b = true → a = b
  | .scalar _ _, .scalar _ _, h => by
    simp only [equals, Bool.and_eq_true, beq_iff_eq] at h
    rw [h.1, h.2]
  | .sequence _ _ _, .sequence _ _ _, h => by
    simp only [equals, Bool.and_eq_true, beq_iff_eq] at h
    rw [h.1.1, h.1.2, eq_of_itemsEqual h.2]
  | .mapping _ _ _, .mapping _ _ _, h => by
    simp only [equals, Bool.and_eq_true, beq_iff_eq] at h
    rw [h.1.1, h.1.2, eq_of_entriesEqual h.2]
  | .alias _, .alias _, h => by
    simp only [equals, beq_iff_eq] at h
    rw [h]
  | .cut, .cut, _ => rfl

theorem eq_of_itemsEqual : ∀ {xs ys : List Node}, itemsEqual xs ys = true → xs = ys
  | [], [], _ => rfl
  | _ :: _, _ :: _, h => by
    simp only [itemsEqual, Bool.and_eq_true] at h
    rw [eq_of_equals h.1, eq_of_itemsEqual h.2]

theorem eq_of_entriesEqual : ∀ {xs ys : List (Node × Node)}, entriesEqual xs ys = true → xs = ys
  | [], [], _ => rfl
  | (_, _) :: _, (_, _) :: _, h => by
    simp only [entriesEqual, Bool.and_eq_true] at h
    rw [eq_of_equals h.1.1, eq_of_equals h.1.2, eq_of_entriesEqual h.2]

end

/-- Whether printing and scanning a node gives it back. -/
def isReproduced (root : Node) : Bool :=
  let document := Document.ofText root.toText
  document.root.any (·.equals (root.asWritten false)) && document.brokenBy.isNone &&
    !document.hasMore

theorem reproduced_of_isReproduced {root : Node} (h : root.isReproduced = true) :
    root.Reproduced := by
  simp only [isReproduced, Bool.and_eq_true, Bool.not_eq_true'] at h
  obtain ⟨⟨hroot, hunbroken⟩, hsingle⟩ := h
  refine ⟨?_, Option.isNone_iff_eq_none.mp hunbroken, hsingle⟩
  cases hfound : (Document.ofText root.toText).root with
  | none => rw [hfound] at hroot; cases hroot
  | some found =>
    rw [hfound] at hroot
    rw [eq_of_equals hroot]

end Node

/-- A plain scalar stays as it is where its text can stand plain. -/
theorem Node.asWritten_plain {text : String} (h : (allowance text.toList).plain = true)
    (tag : Option Tag) (inKey : Bool) : (Node.plain text tag).asWritten inKey = .plain text tag := by
  unfold Node.plain Node.asWritten
  rw [writtenStyle_of_plain h]

/-! ## Which values have a written form -/

/-- Whether a table is nothing but a lone key with its value. -/
def startsLone : List (Value × Value) → Bool
  | [(key, _)] => isLoneKey key
  | _ => false

mutual

/-- Whether a value has a table somewhere that is nothing but a lone key with its value, and has no
tag over it. -/
def hasLoneKey (underTag : Bool) : Value → Bool
  | .list items => anyLoneKey items
  | .table entries => (!underTag && startsLone entries) || anyEntryLoneKey entries
  | .tagged _ value => hasLoneKey true value
  | .null | .bool _ | .int _ | .float _ | .text _ => false

def anyLoneKey : List Value → Bool
  | [] => false
  | item :: rest => hasLoneKey false item || anyLoneKey rest

def anyEntryLoneKey : List (Value × Value) → Bool
  | [] => false
  | (key, value) :: rest =>
    hasLoneKey false key || hasLoneKey false value || anyEntryLoneKey rest

end

theorem Node.ofValue?_table (tag : Option Tag) (entries : List (Value × Value)) :
    Node.ofValue? tag (.table entries) =
      if tag.isNone && startsLone entries then none
      else (nodesOfEntries? entries).map (.mapping none tag) := by
  match entries with
  | [] =>
    unfold Node.ofValue? startsLone
    rw [Bool.and_false]
    rfl
  | [(key, value)] =>
    unfold Node.ofValue? startsLone
    split
    · rfl
    · simp only [nodesOfEntries?]
      cases Node.ofValue? none key <;> cases Node.ofValue? none value <;> rfl
  | first :: second :: rest =>
    unfold Node.ofValue? startsLone
    rw [Bool.and_false]
    rfl

/-- The nodes of entries that begin with one are those of its key and value, before the others. -/
theorem exists_of_nodesOfEntries?_cons {key value : Value} {rest : List (Value × Value)}
    {nodes : List (Node × Node)} (h : nodesOfEntries? ((key, value) :: rest) = some nodes) :
    ∃ keyNode node more, Node.ofValue? none key = some keyNode ∧
      Node.ofValue? none value = some node ∧ nodesOfEntries? rest = some more ∧
      nodes = (keyNode, node) :: more := by
  unfold nodesOfEntries? at h
  obtain ⟨keyNode, hkeyNode, h⟩ := Option.bind_eq_some_iff.mp h
  obtain ⟨node, hnode, h⟩ := Option.bind_eq_some_iff.mp h
  obtain ⟨more, hmore, h⟩ := Option.bind_eq_some_iff.mp h
  exact ⟨keyNode, node, more, hkeyNode, hnode, hmore, (Option.some.inj h).symm⟩

theorem nodesOfItems?_isSome {items : List Value}
    (h : ∀ item ∈ items, (Node.ofValue? none item).isSome = !hasLoneKey false item) :
    (nodesOfItems? items).isSome = !anyLoneKey items := by
  induction items with
  | nil => rfl
  | cons item rest ih =>
    obtain ⟨hitem, hrest⟩ := List.forall_mem_cons.mp h
    have hrest' := ih hrest
    unfold nodesOfItems? anyLoneKey
    rw [Bool.not_or, ← hitem, ← hrest']
    cases Node.ofValue? none item <;> cases nodesOfItems? rest <;> rfl

theorem nodesOfEntries?_isSome {entries : List (Value × Value)}
    (hkeys : ∀ entry ∈ entries, (Node.ofValue? none entry.1).isSome = !hasLoneKey false entry.1)
    (hvalues : ∀ entry ∈ entries,
      (Node.ofValue? none entry.2).isSome = !hasLoneKey false entry.2) :
    (nodesOfEntries? entries).isSome = !anyEntryLoneKey entries := by
  induction entries with
  | nil => rfl
  | cons entry rest ih =>
    obtain ⟨key, value⟩ := entry
    obtain ⟨hkey, hkeys⟩ := List.forall_mem_cons.mp hkeys
    obtain ⟨hvalue, hvalues⟩ := List.forall_mem_cons.mp hvalues
    have hrest := ih hkeys hvalues
    unfold nodesOfEntries? anyEntryLoneKey
    rw [Bool.not_or, Bool.not_or, ← hkey, ← hvalue, ← hrest]
    cases Node.ofValue? none key <;> cases Node.ofValue? none value <;>
      cases nodesOfEntries? rest <;> rfl

/-- A value that a document can yield has a written form exactly when it has no lone key. -/
theorem Node.ofValue?_isSome {depth : ℕ} {value : Value} (h : value.Readable depth)
    (tag : Option Tag) (htag : tag.isSome = true → value.IsUntagged) :
    (Node.ofValue? tag value).isSome = !hasLoneKey tag.isSome value := by
  induction h generalizing tag with
  | null => rfl
  | bool b => rfl
  | int h => rfl
  | float x => rfl
  | text s => rfl
  | list h ih =>
    -- whatever tag stands over a collection, none stands over its parts
    have hitems := nodesOfItems?_isSome fun item hitem => ih item hitem none (by simp)
    unfold Node.ofValue? hasLoneKey
    rw [Option.isSome_map, hitems]
  | table hdistinct hkeys hvalues ihkeys ihvalues =>
    have hentries := nodesOfEntries?_isSome (fun entry he => ihkeys entry he none (by simp))
      fun entry he => ihvalues entry he none (by simp)
    rw [Node.ofValue?_table]
    unfold hasLoneKey
    rw [Bool.not_or, ← hentries, ← Option.not_isSome]
    split
    · next hlone => rw [hlone]; rfl
    · next hlone => rw [Bool.eq_false_iff.mpr hlone, Option.isSome_map]; rfl
  | tagged name huntagged h ih =>
    -- a value with a tag has none over it, so its own one takes that place
    have hnone : tag.isSome = false := by
      cases hsome : tag.isSome with
      | false => rfl
      | true => exact absurd rfl (htag hsome name _)
    have hinner := ih (some (.own name)) fun _ => huntagged
    unfold Node.ofValue? hasLoneKey
    rw [← Option.not_isSome, hnone]
    exact hinner

end Provision.Yaml
