import Provision.Json.Reading
import Provision.Proofs.Yaml.Agreement
import Provision.Proofs.Yaml.Plain
import Provision.Yaml.NodeText

/-!
# JSON documents as YAML nodes

A JSON document has the same tree in YAML: its texts in double quotes, its words and numbers plain.
A plain scalar of the tree denotes what the word or the number is, and a quoted one its text, also
if the text looks like a word or a number (`spelling_of_node?`).
-/

namespace Provision.Json.Source

open Yaml (Node Scalar)

/-- A scalar in double quotes. -/
def quoted (text : String) : Node :=
  .scalar none ⟨text, none, .doubleQuoted⟩

mutual

/-- The node that says in YAML what a source says. There is none where the source is cut off or the
escapes of a text spell nothing, and none for a number unless it is an integer of at most 64 bits. -/
def node? : Source → Option Node
  | .null => some (.plain "null" none)
  | .bool b => some (.plain (if b then "true" else "false") none)
  | .number (some (.int n)) =>
    if -Nat.pow 2 63 ≤ n ∧ n < Nat.pow 2 64 then some (.plain (toString n) none) else none
  | .text (.ok s) => some (quoted s)
  | .list items => (itemNodes? items).map (.sequence none none)
  | .table entries => (entryNodes? entries).map (.mapping none none)
  | .number _ | .text (.error _) | .cut _ _ _ => none

def itemNodes? : List Source → Option (List Node)
  | [] => some []
  | item :: rest => do
    let node ← node? item
    return node :: (← itemNodes? rest)

def entryNodes? : List (Except Break String × Source) → Option (List (Node × Node))
  | [] => some []
  | (.ok key, value) :: rest => do
    let node ← node? value
    return (quoted key, node) :: (← entryNodes? rest)
  | (.error _, _) :: _ => none

end

theorem exists_of_itemNodes?_cons {item : Source} {rest : List Source} {nodes : List Node}
    (h : itemNodes? (item :: rest) = some nodes) : ∃ node more, item.node? = some node ∧
      itemNodes? rest = some more ∧ nodes = node :: more := by
  unfold itemNodes? at h
  obtain ⟨node, hnode, h⟩ := Option.bind_eq_some_iff.mp h
  obtain ⟨more, hmore, h⟩ := Option.bind_eq_some_iff.mp h
  cases h
  exact ⟨node, more, hnode, hmore, rfl⟩

/-- Members have nodes exactly one by one, their names as quoted scalars. -/
theorem exists_of_entryNodes?_cons {entry : Except Break String × Source}
    {rest : List (Except Break String × Source)} {nodes : List (Node × Node)}
    (h : entryNodes? (entry :: rest) = some nodes) : ∃ key node more, entry.1 = .ok key ∧
      entry.2.node? = some node ∧ entryNodes? rest = some more ∧
      nodes = (quoted key, node) :: more := by
  obtain ⟨key | key, value⟩ := entry
  · cases h
  · unfold entryNodes? at h
    obtain ⟨node, hnode, h⟩ := Option.bind_eq_some_iff.mp h
    obtain ⟨more, hmore, h⟩ := Option.bind_eq_some_iff.mp h
    cases h
    exact ⟨key, node, more, rfl, hnode, hmore, rfl⟩

/-- The node of a list is the sequence of the nodes of its items. -/
theorem node?_list {items : List Source} {node : Node} (h : (list items).node? = some node) :
    ∃ nodes, itemNodes? items = some nodes ∧ node = .sequence none none nodes := by
  unfold node? at h
  obtain ⟨nodes, hnodes, rfl⟩ := Option.map_eq_some_iff.mp h
  exact ⟨nodes, hnodes, rfl⟩

/-- The node of an object is the mapping of the nodes of its members. -/
theorem node?_table {entries : List (Except Break String × Source)} {node : Node}
    (h : (table entries).node? = some node) :
    ∃ nodes, entryNodes? entries = some nodes ∧ node = .mapping none none nodes := by
  unfold node? at h
  obtain ⟨nodes, hnodes, rfl⟩ := Option.map_eq_some_iff.mp h
  exact ⟨nodes, hnodes, rfl⟩

/-- The node of an integer is the plain scalar of its digits. -/
theorem node?_int {n : ℤ} {node : Node} (h : (number (some (.int n))).node? = some node) :
    IsInt64 n ∧ node = .plain (toString n) none := by
  unfold node? at h
  split at h
  · next hrange =>
    cases h
    exact ⟨hrange, rfl⟩
  · cases h

/-! ## What the nodes say -/

mutual

/-- Nothing in the node of a source is an alias or cut off. -/
theorem selfContained_of_node? : ∀ {source : Source} {node : Node},
    source.node? = some node → node.SelfContained
  | .null, _, h => by cases h; exact .scalar _ _
  | .bool _, _, h => by cases h; exact .scalar _ _
  | .number none, _, h => by cases h
  | .number (some atom), _, h => by
    cases atom with
    | int n => rw [(node?_int h).2]; exact .scalar _ _
    | _ => cases h
  | .text (.ok _), _, h => by cases h; exact .scalar _ _
  | .text (.error _), _, h => by cases h
  | .list items, _, h => by
    obtain ⟨nodes, hnodes, rfl⟩ := node?_list h
    exact .sequence none none (selfContained_of_itemNodes? hnodes)
  | .table entries, _, h => by
    obtain ⟨nodes, hnodes, rfl⟩ := node?_table h
    exact Node.selfContained_mapping_iff.mpr (selfContained_of_entryNodes? hnodes)
  | .cut _ _ _, _, h => by cases h

theorem selfContained_of_itemNodes? : ∀ {items : List Source} {nodes : List Node},
    itemNodes? items = some nodes → ∀ node ∈ nodes, node.SelfContained
  | [], _, h => by cases h; simp
  | item :: rest, _, h => by
    obtain ⟨node, more, hnode, hmore, rfl⟩ := exists_of_itemNodes?_cons h
    exact List.forall_mem_cons.mpr
      ⟨selfContained_of_node? hnode, selfContained_of_itemNodes? hmore⟩

theorem selfContained_of_entryNodes? : ∀ {entries : List (Except Break String × Source)}
    {nodes : List (Node × Node)}, entryNodes? entries = some nodes →
      ∀ entry ∈ nodes, entry.1.SelfContained ∧ entry.2.SelfContained
  | [], _, h => by cases h; simp
  | entry :: rest, _, h => by
    obtain ⟨key, node, more, -, hnode, hmore, rfl⟩ := exists_of_entryNodes?_cons h
    exact List.forall_mem_cons.mpr
      ⟨⟨.scalar _ _, selfContained_of_node? hnode⟩, selfContained_of_entryNodes? hmore⟩

end

/-- A source and its node: a single value and a scalar without a tag that denotes it, or a
collection. -/
inductive Spelling : Source → Node → Prop
  | scalar {source : Source} {s : Scalar} {atom : Atom}
      (hfound : Reading.found source = .ok (.atom atom)) (htag : s.tag = none)
      (hatom : s.untagged = atom) (hwide : ∀ n, atom ≠ .wideInt n)
      (hnull : atom = .null → source = .null) : Spelling source (.scalar none s)
  | list {items : List Source} {nodes : List Node} (h : itemNodes? items = some nodes) :
    Spelling (.list items) (.sequence none none nodes)
  | table {entries : List (Except Break String × Source)} {nodes : List (Node × Node)}
      (h : entryNodes? entries = some nodes) : Spelling (.table entries) (.mapping none none nodes)

/-- The node of a tree is one spelling of it. -/
theorem spelling_of_node? {source : Source} {node : Node} (h : source.node? = some node) :
    Spelling source node := by
  cases source with
  | null =>
    cases h
    exact .scalar rfl rfl (by decide : _ = Atom.null) (by simp) fun _ => rfl
  | bool b =>
    cases h
    have hatom : Yaml.plainAtom (if b then "true" else "false") = .bool b := by
      cases b <;> decide
    exact .scalar rfl rfl hatom (by simp) (by simp)
  | number value =>
    cases value with
    | none => cases h
    | some atom =>
      cases atom with
      -- of the numbers only an integer in range is written the same in both formats
      | int n =>
        obtain ⟨hrange, rfl⟩ := node?_int h
        exact .scalar rfl rfl (Yaml.plainAtom_int hrange) (by simp) (by simp)
      | _ => cases h
  | text spelled =>
    cases spelled with
    | error cause => cases h
    | ok s =>
      cases h
      exact .scalar rfl rfl rfl (by simp) (by simp)
  | list items =>
    obtain ⟨nodes, hnodes, rfl⟩ := node?_list h
    exact .list hnodes
  | table entries =>
    obtain ⟨nodes, hnodes, rfl⟩ := node?_table h
    exact .table hnodes
  | cut read skipped afterComma => cases h

end Provision.Json.Source
