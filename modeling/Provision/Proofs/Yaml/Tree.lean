import Provision.Json.Tree
import Provision.Proofs.Json.Sorted
import Provision.Proofs.Yaml.Written

/-!
# JSON trees in YAML

A node without tags and aliases whose keys are texts denotes a JSON tree: its plain scalars are words
and numbers, its quoted ones texts. Every tree that documents can hold is written in YAML as a node
that denotes it; texts that would be read as something else are quoted.
-/

namespace Provision.Yaml

/-- The tree of a single value. -/
def treeOfAtom? : Atom → Option Json
  | .null => some .null
  | .bool b => some (.bool b)
  | .int n => some (.int n)
  | .wideInt _ => none
  | .float x => some (.float x)
  | .text s => some (.text s)

namespace Node

/-- The name that a key stands for. -/
def name? : Node → Option String
  | .scalar _ s =>
    match s.atom with
    | .ok (.text name) => some name
    | _ => none
  | _ => none

mutual

/-- The JSON tree that a node denotes. -/
def tree? : Node → Option Json
  | .scalar _ s => s.atom.toOption.bind treeOfAtom?
  | .sequence _ none items => (itemTrees? items).map .list
  | .mapping _ none entries => (memberTrees? entries).map .object
  | .sequence _ (some _) _ | .mapping _ (some _) _ | .alias _ | .cut => none

def itemTrees? : List Node → Option (List Json)
  | [] => some []
  | item :: rest => do
    let tree ← tree? item
    return tree :: (← itemTrees? rest)

def memberTrees? : List (Node × Node) → Option (List (String × Json))
  | [] => some []
  | (key, value) :: rest => do
    let name ← name? key
    let tree ← tree? value
    return (name, tree) :: (← memberTrees? rest)

end

/-- Whether a value is written as a node that denotes a tree, in whatever style its scalars are
written. -/
def Writes (value : Value) (tree : Json) : Prop :=
  ∃ node, Node.ofValue? none value = some node ∧
    ∀ inKey, (node.asWritten inKey).tree? = some tree

/-- A plain scalar is written so that its tree can be told again. -/
theorem writes_atom (atom : Atom) {value : Value} {tree : Json}
    (h : Value.ofAtom? atom = some value) (hint : ∀ n, atom = .int n → IsInt64 n)
    (htree : treeOfAtom? atom = some tree) : Writes value tree := by
  obtain ⟨text, style, hnode, hatom⟩ := exists_scalar h hint
  refine ⟨_, hnode none, fun inKey => ?_⟩
  have hscalar : Scalar.atom ⟨text, none, writtenStyle style text.toList inKey⟩ = .ok atom :=
    congrArg Except.ok (hatom none inKey)
  rw [asWritten, tree?, hscalar]
  exact htree

theorem name?_text (name : String) (inKey : Bool) :
    ((scalar none ⟨name, none, textStyle name⟩).asWritten inKey).name? = some name := by
  have hscalar : Scalar.atom ⟨name, none, writtenStyle (textStyle name) name.toList inKey⟩ =
      .ok (.text name) := congrArg Except.ok (untagged_text name none inKey)
  rw [asWritten, name?, hscalar]

/-- Items are written so that their trees can be told again. -/
theorem writes_items {items : List Json} (h : ∀ item ∈ items, Writes item.toValue item) :
    ∃ nodes, nodesOfItems? (Json.itemValues items) = some nodes ∧
      itemTrees? (itemsAsWritten nodes) = some items := by
  induction items with
  | nil => exact ⟨[], rfl, rfl⟩
  | cons item items ih =>
    obtain ⟨⟨node, hnode, htree⟩, hrest⟩ := List.forall_mem_cons.mp h
    obtain ⟨nodes, hnodes, htrees⟩ := ih hrest
    refine ⟨node :: nodes, ?_, ?_⟩
    · rw [Json.itemValues, nodesOfItems?, hnode, hnodes]
      rfl
    · rw [itemsAsWritten, itemTrees?, htree, htrees]
      rfl

/-- Members are written so that their names and trees can be told again, in order. -/
theorem writes_members {members : List (String × Json)}
    (h : ∀ member ∈ members, Writes member.2.toValue member.2) :
    ∃ nodes, nodesOfEntries? (Json.memberValues members) = some nodes ∧
      memberTrees? (entriesAsWritten nodes) = some members := by
  induction members with
  | nil => exact ⟨[], rfl, rfl⟩
  | cons member members ih =>
    obtain ⟨name, tree⟩ := member
    obtain ⟨⟨node, hnode, htree⟩, hrest⟩ := List.forall_mem_cons.mp h
    obtain ⟨nodes, hnodes, htrees⟩ := ih hrest
    refine ⟨(.scalar none ⟨name, none, textStyle name⟩, node) :: nodes, ?_, ?_⟩
    · rw [Json.memberValues, nodesOfEntries?, hnode, hnodes]
      rfl
    · rw [entriesAsWritten, memberTrees?, name?_text, htree, htrees]
      rfl

/-- No table of a tree is a lone key, since all its keys are texts. -/
theorem startsLone_memberValues (members : List (String × Json)) :
    startsLone (Json.memberValues members) = false := by
  match members with
  | [] => rfl
  | [_] => rfl
  | _ :: _ :: _ => rfl

/-- A tree that documents can hold is written as a node that denotes it. -/
theorem writes_tree {tree : Json} (h : tree.WellFormed) : Writes tree.toValue tree := by
  induction h with
  | null => exact writes_atom .null rfl nofun rfl
  | bool b => exact writes_atom (.bool b) rfl nofun rfl
  | @int n h => exact writes_atom (.int n) rfl (fun _ hn => Atom.int.inj hn ▸ h) rfl
  | @float x _ => exact writes_atom (.float x) rfl nofun rfl
  | text s => exact writes_atom (.text s) rfl nofun rfl
  | list _ ih =>
    obtain ⟨nodes, hnodes, htrees⟩ := writes_items ih
    refine ⟨.sequence none none nodes, ?_, fun inKey => ?_⟩
    · rw [Json.toValue, Node.ofValue?, hnodes]
      rfl
    · rw [asWritten, tree?, htrees]
      rfl
  -- names are texts without a tag, so no member is taken for a tagged value
  | object _ _ ih =>
    obtain ⟨nodes, hnodes, htrees⟩ := writes_members ih
    refine ⟨.mapping none none nodes, ?_, fun inKey => ?_⟩
    · rw [Json.toValue, Node.ofValue?_table, startsLone_memberValues, Bool.and_false, hnodes]
      rfl
    · rw [asWritten, tree?, htrees]
      rfl

end Node

end Provision.Yaml
