import Mathlib.Data.List.Forall2
import Provision.Proofs.Yaml.Reading

/-!
# What readings give in a document

In a given document an alias stands for one node, and a reading that succeeds has followed every
alias it came upon. What it gives can therefore be told from the nodes behind the aliases
(`Document.target?`), and how often it followed one does not matter. No alias stands for another
alias, since an alias has no anchor.
-/

namespace Provision.Yaml

/-! ## Behind the aliases -/

namespace Document

/-- The node itself, or the one that an alias stands for. -/
def target? (d : Document) : Node → Option Node
  | .alias id => d.anchor? id
  | node => some node

/-- The text that a node is. -/
def text? (d : Document) (node : Node) : Option String :=
  match d.target? node with
  | some (.scalar _ s) => some s.text
  | _ => none

/-- The items of the list that a node is. -/
def items (d : Document) (node : Node) : List Node :=
  match d.target? node with
  | some (.sequence _ _ nodes) => nodes
  | _ => []

/-- The entries of the mapping that a node is. -/
def entries (d : Document) (node : Node) : List (Node × Node) :=
  match d.target? node with
  | some (.mapping _ _ entries) => entries
  | _ => []

/-- The value of the first entry with a key. -/
def find? (d : Document) (key : String) (entries : List (Node × Node)) : Option Node :=
  (entries.find? fun entry => d.text? entry.1 == some key).map (·.2)

end Document

/-! ## Anchors -/

namespace Node

/-- Whether a node is no alias. -/
def IsTarget (node : Node) : Prop :=
  ∀ id, node ≠ .alias id

theorem isTarget_scalar (anchor : Option ℕ) (s : Scalar) : (scalar anchor s).IsTarget := by
  intro id h
  cases h

theorem isTarget_sequence (anchor : Option ℕ) (tag : Option Tag) (items : List Node) :
    (sequence anchor tag items).IsTarget := by
  intro id h
  cases h

theorem isTarget_mapping (anchor : Option ℕ) (tag : Option Tag) (entries : List (Node × Node)) :
    (mapping anchor tag entries).IsTarget := by
  intro id h
  cases h

theorem isTarget_withAnchor {anchor : Option ℕ} {node : Node} (h : node.IsTarget)
    {found : List (ℕ × Node)} (hfound : ∀ entry ∈ found, entry.2.IsTarget) :
    ∀ entry ∈ withAnchor anchor node found, entry.2.IsTarget := by
  cases anchor with
  | none => exact hfound
  | some id => exact List.forall_mem_cons.mpr ⟨h, hfound⟩

mutual

theorem isTarget_anchored (node : Node) : ∀ entry ∈ node.anchored, entry.2.IsTarget := by
  cases node with
  | scalar anchor s => exact isTarget_withAnchor (isTarget_scalar anchor s) (List.forall_mem_nil _)
  | sequence anchor tag items =>
    exact isTarget_withAnchor (isTarget_sequence anchor tag items) (isTarget_anchoredItems items)
  | mapping anchor tag entries =>
    exact isTarget_withAnchor (isTarget_mapping anchor tag entries)
      (isTarget_anchoredEntries entries)
  | «alias» target => exact List.forall_mem_nil _
  | cut => exact List.forall_mem_nil _

theorem isTarget_anchoredItems (items : List Node) :
    ∀ entry ∈ anchoredItems items, entry.2.IsTarget := by
  cases items with
  | nil => exact List.forall_mem_nil _
  | cons node rest =>
    exact List.forall_mem_append.mpr ⟨isTarget_anchored node, isTarget_anchoredItems rest⟩

theorem isTarget_anchoredEntries (entries : List (Node × Node)) :
    ∀ entry ∈ anchoredEntries entries, entry.2.IsTarget := by
  match entries with
  | [] => exact List.forall_mem_nil _
  | (key, value) :: rest =>
    exact List.forall_mem_append.mpr ⟨List.forall_mem_append.mpr
      ⟨isTarget_anchored key, isTarget_anchored value⟩, isTarget_anchoredEntries rest⟩

end

end Node

/-- A document whose aliases stand for nodes that are none. -/
def Document.Settled (d : Document) : Prop :=
  ∀ entry ∈ d.anchors, entry.2.IsTarget

/-- The anchors of a document that come from its own nodes lead to no alias. -/
theorem Document.settled_of_anchors {d : Document} {root : Option Node}
    (h : d.anchors = ((root.map Node.anchored).getD []).reverse) : d.Settled := by
  intro entry hentry
  rw [h, List.mem_reverse] at hentry
  cases root with
  | none => cases hentry
  | some root => exact root.isTarget_anchored entry hentry

/-- However the events of a document go on, its anchors are those of its tree. -/
theorem Builder.settled_follow (fault : Option SyntaxFault) (events : List Event) (b : Builder) :
    (b.follow fault events).Settled := by
  induction events generalizing b with
  | nil =>
    unfold follow
    -- an alias of nothing ends the document with no anchors
    split
    · exact Document.settled_of_anchors rfl
    · exact Document.settled_of_anchors rfl
  | cons event rest ih =>
    unfold follow
    cases event with
    | documentStart => exact ih _
    | documentEnd => exact Document.settled_of_anchors rfl
    | streamEnd => exact Document.settled_of_anchors rfl
    | «alias» name =>
      dsimp only
      split
      · exact ih _
      · exact Document.settled_of_anchors rfl
    | scalar p style text => exact ih _
    | sequenceStart p => exact ih _
    | mappingStart p => exact ih _
    | sequenceEnd => exact ih _
    | mappingEnd => exact ih _

/-- No alias of a document leads to another alias. -/
theorem Document.settled_ofText (text : String) : (ofText text).Settled :=
  Builder.settled_follow _ _ _

theorem Document.Settled.isTarget {d : Document} (h : d.Settled) {node target : Node}
    (htarget : d.target? node = some target) : target.IsTarget := by
  unfold target? at htarget
  split at htarget
  · next id =>
    obtain ⟨before, after, heq, -⟩ := List.lookup_eq_some_iff.mp htarget
    exact h (id, target) (by rw [heq]; simp)
  · next hnode =>
    cases htarget
    exact hnode

/-- A node that is no alias leads to itself. -/
theorem Document.target?_of_isTarget {d : Document} {node : Node} (h : node.IsTarget) :
    d.target? node = some node := by
  unfold target?
  split
  · next id => exact absurd rfl (h id)
  · rfl

/-! ## Readings -/

namespace Reading

variable {α : Type} {d : Document}

theorem ensuresIn_read : EnsuresIn d read (· = d) := by
  intro count document count' h
  cases h
  rfl

theorem ensuresIn_resolve (node : Node) :
    EnsuresIn d (resolve node) fun target => d.target? node = some target := by
  unfold resolve
  split
  · next id =>
    refine ensuresIn_read.bind fun document hdocument => ?_
    subst hdocument
    refine ensuresIn_bind fun count => ?_
    dsimp only
    split
    · exact ensures_throw_bind.within _
    · refine ensuresIn_bind fun _ => ?_
      split
      · next node hnode => exact ensuresIn_pure hnode
      · exact ensures_brokenOff.within _
  · next hnode => exact ensuresIn_pure (Document.target?_of_isTarget hnode)

theorem ensuresIn_text (expected : Expected) (path : Path) (node : Node) :
    EnsuresIn d (text expected path node) fun s => d.text? node = some s := by
  refine ((ensuresIn_resolve node).bind fun target htarget => ?_).located path
  unfold Document.text?
  rw [htarget]
  split
  · exact ensuresIn_pure rfl
  · exact (ensures_mismatch _ _).within _

/-! ## Collections -/

/-- Items are read one by one, each as what it leads to. -/
theorem ensuresIn_items {read : Path → Node → Reading α} {P : Node → α → Prop}
    (h : ∀ path node, EnsuresIn d (read path node) (P node)) (path : Path) (index : ℕ)
    (nodes : List Node) : EnsuresIn d (items read path index nodes) (List.Forall₂ P nodes) := by
  induction nodes generalizing index with
  | nil => exact ensuresIn_pure .nil
  | cons node rest ih =>
    refine (h _ node).bind fun a ha => (ih (index + 1)).bind fun as has => ?_
    exact ensuresIn_pure (.cons ha has)

/-- A list is read from its items in order. -/
theorem ensuresIn_list {read : Place → Node → Reading α} {P : Node → α → Prop}
    (h : ∀ place node, EnsuresIn d (read place node) (P node)) (place : Place) (node : Node) :
    EnsuresIn d (list read place node) (List.Forall₂ P (d.items node)) := by
  refine ((ensuresIn_resolve node).bind fun target htarget => ?_).located place.path
  unfold Document.items
  rw [htarget]
  split
  · split
    · exact (ensures_throw _).within _
    · exact ensuresIn_items (fun path node => h _ node) _ _ _
  · split
    · exact ensuresIn_pure .nil
    · exact (ensures_mismatch _ _).within _
  · exact (ensures_mismatch _ _).within _

/-- A mapping is read from its entries. -/
theorem ensuresIn_mapping {expected : Expected} {read : ℕ → List (Node × Node) → Reading α}
    {P : List (Node × Node) → α → Prop}
    (h : ∀ depth entries, EnsuresIn d (read depth entries) (P entries)) (place : Place)
    (node : Node) : EnsuresIn d (mapping expected read place node) (P (d.entries node)) := by
  refine ((ensuresIn_resolve node).bind fun target htarget => ?_).located place.path
  unfold Document.entries
  rw [htarget]
  split
  · split
    · exact (ensures_throw _).within _
    · exact h _ _
  · split
    · exact h _ []
    · exact (ensures_mismatch _ _).within _
  · exact (ensures_mismatch _ _).within _

end Reading

end Provision.Yaml
