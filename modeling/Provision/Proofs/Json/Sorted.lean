import Mathlib.Data.List.Forall2
import Mathlib.Data.List.Perm.Basic
import Provision.Json.Tree
import Provision.Proofs.Value

/-!
# Trees with sorted members

A tree with the members of its objects sorted is the same tree but for their order, as long as no
object has two members of one name. What an object has under a name does not change either.
-/

namespace Provision.Json

/-- The trees that documents can hold: an integer has at most 64 bits, other numbers are finite, and
no object has two members of one name. -/
inductive WellFormed : Json → Prop
  | null : WellFormed .null
  | bool (b : Bool) : WellFormed (.bool b)
  | int {n : ℤ} (h : IsInt64 n) : WellFormed (.int n)
  | float {x : Double} (h : x.isFinite = true) : WellFormed (.float x)
  | text (s : String) : WellFormed (.text s)
  | list {items : List Json} (h : ∀ item ∈ items, WellFormed item) : WellFormed (.list items)
  | object {members : List (String × Json)} (hnames : (members.map (·.1)).Nodup)
      (h : ∀ member ∈ members, WellFormed member.2) : WellFormed (.object members)

/-- Whether two trees are the same but for the order of the members of objects. -/
inductive Same : Json → Json → Prop
  | null : Same .null .null
  | bool (b : Bool) : Same (.bool b) (.bool b)
  | int (n : ℤ) : Same (.int n) (.int n)
  | float (x : Double) : Same (.float x) (.float x)
  | text (s : String) : Same (.text s) (.text s)
  | list {xs ys : List Json} (h : List.Forall₂ Same xs ys) : Same (.list xs) (.list ys)
  | object {xs ys zs : List (String × Json)} (hperm : xs.Perm ys)
      (hnames : ys.map (·.1) = zs.map (·.1))
      (h : List.Forall₂ Same (ys.map (·.2)) (zs.map (·.2))) : Same (.object xs) (.object zs)

/-! ## Sorting members -/

section

variable {name : String} {value : Json} {members : List (String × Json)}

/-- A name that is new comes in addition to those that are there. -/
theorem perm_insertMember (h : name ∉ members.map (·.1)) :
    (insertMember name value members).Perm ((name, value) :: members) := by
  induction members with
  | nil => exact List.Perm.refl _
  | cons first members ih =>
    obtain ⟨other, found⟩ := first
    rw [List.map_cons, List.mem_cons, not_or] at h
    rw [insertMember, if_neg h.1]
    split
    · exact List.Perm.refl _
    · exact ((ih h.2).cons _).trans (List.Perm.swap _ _ _)

/-- A new member is put where the order of the names stays. -/
theorem pairwise_insertMember (h : (members.map (·.1)).Pairwise (· < ·))
    (hname : name ∉ members.map (·.1)) :
    ((insertMember name value members).map (·.1)).Pairwise (· < ·) := by
  induction members with
  | nil => exact List.pairwise_singleton _ _
  | cons first members ih =>
    obtain ⟨other, found⟩ := first
    rw [List.map_cons, List.mem_cons, not_or] at hname
    rw [List.map_cons, List.pairwise_cons] at h
    rw [insertMember, if_neg hname.1]
    split
    -- the new name goes before the first one
    · next hlt =>
      rw [List.map_cons, List.map_cons, List.pairwise_cons, List.pairwise_cons]
      refine ⟨fun later hlater => ?_, h⟩
      rcases List.mem_cons.mp hlater with rfl | hlater
      · exact hlt
      · exact String.lt_trans hlt (h.1 later hlater)
    · next hlt =>
      rw [List.map_cons, List.pairwise_cons]
      refine ⟨fun later hlater => ?_, ih h.2 hname.2⟩
      have hmem : later ∈ ((name, value) :: members).map (·.1) :=
        ((perm_insertMember hname.2).map _).mem_iff.mp hlater
      rcases List.mem_cons.mp hmem with rfl | hmem
      · -- the new name is neither the first one nor before it
        have hle : other ≤ later := String.not_lt.mp hlt
        exact Decidable.byContradiction fun hnot =>
          hname.1 (String.le_antisymm (String.not_lt.mp hnot) hle)
      · exact h.1 later hmem

/-- Members of different names are put in order, one after the other. -/
theorem foldl_insertMember (sorted : List (String × Json))
    (hnames : ((sorted ++ members).map (·.1)).Nodup)
    (hsorted : (sorted.map (·.1)).Pairwise (· < ·)) :
    let result := members.foldl (fun sorted (name, value) => insertMember name value sorted) sorted
    result.Perm (sorted ++ members) ∧ (result.map (·.1)).Pairwise (· < ·) := by
  induction members generalizing sorted with
  | nil =>
    rw [List.append_nil]
    exact ⟨List.Perm.refl _, hsorted⟩
  | cons first members ih =>
    obtain ⟨name, value⟩ := first
    have hmiddle : (sorted ++ (name, value) :: members).Perm ((name, value) :: sorted ++ members) :=
      List.perm_middle
    have hnew : name ∉ sorted.map (·.1) := by
      have hnodup := (hmiddle.map (·.1)).nodup_iff.mp hnames
      rw [List.cons_append, List.map_cons, List.nodup_cons, List.map_append, List.mem_append,
        not_or] at hnodup
      exact hnodup.1.1
    have hinsert : (insertMember name value sorted ++ members).Perm
        (sorted ++ (name, value) :: members) :=
      ((perm_insertMember hnew).append_right members).trans hmiddle.symm
    have hrest := ih _ ((hinsert.map (·.1)).nodup_iff.mpr hnames) (pairwise_insertMember hsorted hnew)
    exact ⟨hrest.1.trans hinsert, hrest.2⟩

/-- Sorting keeps every member if no name is there twice. -/
theorem perm_sortMembers (h : (members.map (·.1)).Nodup) : (sortMembers members).Perm members :=
  (foldl_insertMember [] h List.Pairwise.nil).1

theorem pairwise_sortMembers (h : (members.map (·.1)).Nodup) :
    ((sortMembers members).map (·.1)).Pairwise (· < ·) :=
  (foldl_insertMember [] h List.Pairwise.nil).2

/-- A member is found under its name if no name is there twice. -/
theorem lookup_of_mem (hnames : (members.map (·.1)).Nodup) (h : (name, value) ∈ members) :
    members.lookup name = some value := by
  induction members with
  | nil => cases h
  | cons first members ih =>
    rw [List.map_cons, List.nodup_cons] at hnames
    rw [List.lookup_cons]
    rcases List.mem_cons.mp h with rfl | h
    · rw [beq_self_eq_true]
    · have hne : name ≠ first.1 := by
        rintro rfl
        exact hnames.1 (List.mem_map.mpr ⟨_, h, rfl⟩)
      rw [beq_eq_false_iff_ne.mpr hne]
      exact ih hnames.2 h

end

/-! ## Sorted trees -/

theorem sortedItems_eq_map (items : List Json) : sortedItems items = items.map sorted := by
  induction items with
  | nil => rfl
  | cons item items ih => rw [sortedItems, ih, List.map_cons]

theorem sortedMembers_eq_map (members : List (String × Json)) :
    sortedMembers members = members.map fun member => (member.1, member.2.sorted) := by
  induction members with
  | nil => rfl
  | cons member members ih => rw [sortedMembers, ih, List.map_cons]

/-- Sorting the values of members leaves their names. -/
theorem names_sortedMembers (members : List (String × Json)) :
    (sortedMembers members).map (·.1) = members.map (·.1) := by
  rw [sortedMembers_eq_map, List.map_map]
  rfl

/-- A well-formed tree stays so when it is sorted. -/
theorem WellFormed.sorted {tree : Json} (h : tree.WellFormed) : tree.sorted.WellFormed := by
  induction h with
  | null => exact .null
  | bool b => exact .bool b
  | int h => exact .int h
  | float h => exact .float h
  | text s => exact .text s
  | list _ ih =>
    rw [Json.sorted, sortedItems_eq_map]
    refine .list fun item hitem => ?_
    obtain ⟨before, hbefore, rfl⟩ := List.mem_map.mp hitem
    exact ih before hbefore
  | @object members hnames _ ih =>
    rw [← names_sortedMembers] at hnames
    -- the members are sorted as they come out of the recursion, which keeps their names
    have hperm := perm_sortMembers hnames
    rw [Json.sorted]
    refine .object ((hperm.map (·.1)).nodup_iff.mpr hnames) fun member hmember => ?_
    rw [hperm.mem_iff, sortedMembers_eq_map] at hmember
    obtain ⟨before, hbefore, rfl⟩ := List.mem_map.mp hmember
    exact ih before hbefore

/-- Sorting changes nothing but the order of members. -/
theorem WellFormed.same_sorted {tree : Json} (h : tree.WellFormed) : Same tree.sorted tree := by
  induction h with
  | null => exact .null
  | bool b => exact .bool b
  | int h => exact .int _
  | float h => exact .float _
  | text s => exact .text s
  | @list items _ ih =>
    rw [Json.sorted, sortedItems_eq_map]
    apply Same.list
    rw [List.forall₂_map_left_iff, List.forall₂_same]
    exact ih
  | @object members hnames _ ih =>
    rw [← names_sortedMembers] at hnames
    rw [Json.sorted]
    apply Same.object (perm_sortMembers hnames) (names_sortedMembers members)
    rw [sortedMembers_eq_map, List.map_map, List.forall₂_map_left_iff, List.forall₂_map_right_iff,
      List.forall₂_same]
    exact ih

/-- An object has under a name what it had before it was sorted. -/
theorem lookup_sortMembers {members : List (String × Json)} {name : String} {tree : Json}
    (hnames : (members.map (·.1)).Nodup) (h : (name, tree) ∈ members) :
    (sortMembers (sortedMembers members)).lookup name = some tree.sorted := by
  rw [← names_sortedMembers] at hnames
  have hperm := perm_sortMembers hnames
  apply lookup_of_mem ((hperm.map (·.1)).nodup_iff.mpr hnames)
  rw [hperm.mem_iff, sortedMembers_eq_map]
  exact List.mem_map_of_mem h

end Provision.Json
