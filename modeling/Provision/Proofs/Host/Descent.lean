import Mathlib.Data.List.Infix
import Mathlib.Data.List.Induction
import Provision.Proofs.Host.Component
import Provision.Proofs.Host.Walk

/-!
# Paths above a path

The descent of an absolute path is what a walk from the root follows: its components below the root.
A directory is where the walk of its descent ends, however the path is spelled. The paths above a
path have the shorter beginnings of its descent as theirs, nearest first. These are the directories
above it as long as the descent has no step upwards.
-/

namespace Provision

open Attempt HostPath

namespace HostPath

variable {path : HostPath}

/-- The components of an absolute path below the root. -/
def descent (path : HostPath) : List String :=
  (components path).tail.map String.ofList

example : descent "/srv//./code/../www/" = ["srv", "code", "..", "www"] := by decide

/-! ## Segments, the last one first -/

/-- The components among the segments after the root, the last segment first. -/
def descentOf (backwards : List (List Char)) : List String :=
  (backwards.reverse.filter isInner).map String.ofList

/-- Below the root a segment counts unless it is empty or a lone dot. -/
theorem isComponent_true (segment : List Char) (before : List (List Char)) :
    isComponent true segment before = isInner segment := by
  simp [isComponent, isInner]

/-- The last segment comes last on the way down, if it counts. -/
theorem descentOf_cons (segment : List Char) (before : List (List Char)) :
    descentOf (segment :: before) =
      descentOf before ++ if isInner segment then [String.ofList segment] else [] := by
  unfold descentOf
  rw [List.reverse_cons, List.filter_append, List.map_append, List.filter_singleton]
  rcases isInner segment <;> rfl

/-- Trimming drops only segments that do not count. -/
theorem descentOf_trimmed (segments : List (List Char)) :
    descentOf (trimmed true segments) = descentOf segments := by
  induction segments with
  | nil => rfl
  | cons segment before ih =>
    rw [trimmed, isComponent_true]
    by_cases hinner : isInner segment = true
    · rw [if_pos hinner]
    · rw [if_neg hinner, ih, descentOf_cons, if_neg hinner, List.append_nil]

/-- Trimming takes segments from the end only. -/
theorem trimmed_suffix (absolute : Bool) (segments : List (List Char)) :
    trimmed absolute segments <:+ segments := by
  induction segments with
  | nil => exact List.suffix_refl _
  | cons segment before ih =>
    rw [trimmed]
    split
    · exact List.suffix_refl _
    · exact ih.trans (List.suffix_cons segment before)

/-- The segments of a directory above are the first ones of the path. -/
theorem suffix_of_mem_shortened {absolute : Bool} {segments above : List (List Char)}
    (h : above ∈ shortened absolute segments) : above <:+ segments := by
  induction segments with
  | nil => cases h
  | cons segment before ih =>
    have hbefore : before <:+ segment :: before := List.suffix_cons segment before
    rw [shortened] at h
    split at h
    · rcases List.mem_cons.mp h with rfl | h
      · exact (trimmed_suffix absolute before).trans hbefore
      · exact (ih h).trans hbefore
    · exact (ih h).trans hbefore

/-- The longest start of a list is the list, and the others are those without its last entry. -/
theorem reverse_inits_concat {α : Type} (xs : List α) (x : α) :
    (xs ++ [x]).inits.reverse = (xs ++ [x]) :: xs.inits.reverse := by
  rw [List.inits_append, List.reverse_append]
  rfl

/-- Each time the last component goes, the descent loses its last name. -/
theorem map_descentOf_shortened (segments : List (List Char)) :
    descentOf segments :: (shortened true segments).map descentOf =
      (descentOf segments).inits.reverse := by
  induction segments with
  | nil => rfl
  | cons segment before ih =>
    rw [descentOf_cons, shortened, isComponent_true]
    by_cases hinner : isInner segment = true
    · rw [if_pos hinner, if_pos hinner, List.map_cons, descentOf_trimmed, ih, reverse_inits_concat]
    · rw [if_neg hinner, if_neg hinner, List.append_nil, ih]

/-! ## The paths above -/

/-- An absolute path starts with a separator. -/
theorem exists_toList_of_isAbsolute (habs : isAbsolute path = true) :
    ∃ rest, path.toList = '/' :: rest :=
  List.head?_eq_some_iff.mp (eq_of_beq habs)

/-- The way down is made of the segments that count, behind the root. -/
theorem descent_eq {rest : List Char} (hpath : path.toList = '/' :: rest) :
    descent path = ((segments rest).filter isInner).map String.ofList := by
  unfold descent components
  rw [hpath]
  show ((componentsOf ([] :: segments rest)).tail).map String.ofList = _
  obtain ⟨first, others, hrest⟩ := List.exists_cons_of_ne_nil (segments_ne_nil rest)
  rw [hrest]
  rfl

/-- Segments behind the root make an absolute path. -/
theorem toList_ofBackwards (segments : List (List Char)) :
    (ofBackwards true segments).toList = '/' :: ofSegments segments.reverse := by
  unfold ofBackwards
  rw [String.toList_ofList]
  rfl

/-- Parts without separators are the way down of the path they make. -/
theorem descent_ofBackwards {parts : List (List Char)} (h : ∀ part ∈ parts, '/' ∉ part) :
    descent (ofBackwards true parts) = descentOf parts := by
  rw [descent_eq (toList_ofBackwards parts)]
  unfold descentOf
  by_cases hparts : parts = []
  · rw [hparts]
    rfl
  · have hreverse : parts.reverse ≠ [] := fun hnil => hparts (List.reverse_eq_nil_iff.mp hnil)
    rw [segments_ofSegments hreverse]
    intro part hpart
    exact h part (List.mem_reverse.mp hpart)

/-- The directories above an absolute path, by its segments. -/
theorem parents_eq {rest : List Char} (hpath : path.toList = '/' :: rest) :
    parents path = (shortened true (segments rest).reverse).map (ofBackwards true) := by
  have habs : isAbsolute path = true := by
    unfold isAbsolute
    rw [hpath]
    rfl
  unfold parents backwards
  rw [habs, hpath]
  rfl

/-- The descents of a path and of those above it are the beginnings of its own, the longest one
first. -/
theorem map_descent_parents (habs : isAbsolute path = true) :
    (path :: parents path).map descent = (descent path).inits.reverse := by
  obtain ⟨rest, hpath⟩ := exists_toList_of_isAbsolute habs
  have hdescent : descent path = descentOf (segments rest).reverse := by
    rw [descent_eq hpath, descentOf, List.reverse_reverse]
  have habove : ∀ above ∈ shortened true (segments rest).reverse,
      descent (ofBackwards true above) = descentOf above := by
    intro above hmem
    apply descent_ofBackwards
    intro part hpart
    have hsegment : part ∈ (segments rest).reverse := (suffix_of_mem_shortened hmem).subset hpart
    exact not_mem_of_mem_segments (List.mem_reverse.mp hsegment)
  rw [List.map_cons, parents_eq hpath, List.map_map, hdescent, ← map_descentOf_shortened]
  exact congrArg (_ :: ·) (List.map_congr_left habove)

/-- The directories above an absolute path have absolute paths. -/
theorem isAbsolute_of_mem_parents (habs : isAbsolute path = true) {above : HostPath}
    (h : above ∈ path :: parents path) : isAbsolute above = true := by
  obtain ⟨rest, hpath⟩ := exists_toList_of_isAbsolute habs
  rcases List.mem_cons.mp h with rfl | h
  · exact habs
  · rw [parents_eq hpath] at h
    obtain ⟨segments, -, rfl⟩ := List.mem_map.mp h
    unfold isAbsolute
    rw [toList_ofBackwards]
    rfl

/-- The ways down to a path and the directories above it are the starts of one way. -/
theorem mem_map_descent_iff (habs : isAbsolute path = true) {kept : List String} :
    (∃ above ∈ path :: parents path, descent above = kept) ↔ kept <+: descent path := by
  rw [← List.mem_map, map_descent_parents habs, List.mem_reverse, List.mem_inits]

/-- The starts of a list, longest first, each hold the later ones. -/
theorem pairwise_reverse_inits {α : Type} (xs : List α) :
    xs.inits.reverse.Pairwise fun longer shorter => shorter <+: longer ∧ shorter ≠ longer := by
  induction xs using List.reverseRecOn with
  | nil => exact List.pairwise_singleton _ _
  | append_singleton xs x ih =>
    rw [reverse_inits_concat, List.pairwise_cons]
    refine ⟨fun shorter hshorter => ?_, ih⟩
    have hxs : shorter <+: xs := (List.mem_inits _ _).mp (List.mem_reverse.mp hshorter)
    refine ⟨hxs.trans (List.prefix_append xs [x]), ?_⟩
    rintro rfl
    have hlength := hxs.length_le
    rw [List.length_append, List.length_singleton] at hlength
    omega

/-- Of a path and those above it, the later ones have strictly shorter descents. -/
theorem pairwise_parents (habs : isAbsolute path = true) :
    (path :: parents path).Pairwise fun nearer above =>
      descent above <+: descent nearer ∧ descent above ≠ descent nearer := by
  have h := pairwise_reverse_inits (descent path)
  rwa [← map_descent_parents habs, List.pairwise_map] at h

/-- A search upwards gives what it finds first: the answer of a path above, if every nearer one has
none. -/
theorem findSome?_parents_eq_some_iff (habs : isAbsolute path = true) {α : Type}
    {answer : HostPath → Option α} {found : α} :
    (path :: parents path).findSome? answer = some found ↔
      ∃ above ∈ path :: parents path, answer above = some found ∧
        ∀ nearer ∈ path :: parents path, descent above <+: descent nearer →
          descent nearer ≠ descent above → answer nearer = none := by
  have hpairwise := pairwise_parents habs
  constructor
  · intro h
    obtain ⟨before, above, after, hsplit, habove, hbefore⟩ := List.findSome?_eq_some_iff.mp h
    rw [hsplit] at hpairwise ⊢
    refine ⟨above, by simp, habove, fun nearer hnearer hprefix hne => ?_⟩
    rcases List.mem_append.mp hnearer with hnearer | hnearer
    · exact hbefore nearer hnearer
    rcases List.mem_cons.mp hnearer with rfl | hnearer
    · exact absurd rfl hne
    · -- what comes later has a shorter descent, so it is not nearer
      have hafter := ((List.pairwise_append.mp hpairwise).2.1 |> List.pairwise_cons.mp).1 _ hnearer
      exact absurd (hafter.1.eq_of_length_le hprefix.length_le) hne
  · intro h
    obtain ⟨above, hmem, habove, hnearer⟩ := h
    obtain ⟨before, after, hsplit⟩ := List.append_of_mem hmem
    rw [hsplit] at hpairwise hnearer ⊢
    refine List.findSome?_eq_some_iff.mpr ⟨before, above, after, rfl, habove, fun nearer hbefore => ?_⟩
    have hfar := (List.pairwise_append.mp hpairwise).2.2 nearer hbefore above List.mem_cons_self
    exact hnearer nearer (List.mem_append_left _ hbefore) hfar.1 hfar.2.symm

end HostPath

namespace Host

variable {host : Host} {path : HostPath} {directory there : Location}

/-! ## Where absolute paths lead -/

/-- A lookup follows the descent of a path, and lone dots between. -/
theorem filter_steps (habs : isAbsolute path = true) :
    (steps path).filter (· ≠ ".") = descent path := by
  obtain ⟨rest, hpath⟩ := exists_toList_of_isAbsolute habs
  -- a step is a dot exactly if its segment is
  have hdot : ∀ segment : List Char, (String.ofList segment ≠ ".") ↔ segment ≠ ['.'] := by
    intro segment
    have hlist : (".").toList = ['.'] := rfl
    rw [ne_eq, ← String.toList_inj, String.toList_ofList, hlist]
  have hinner : ((fun name : String => decide (name ≠ ".")) ∘ String.ofList) =
      fun segment : List Char => decide (segment ≠ ['.']) := by
    funext segment
    exact decide_eq_decide.mpr (hdot segment)
  have hend : ∀ b : Bool, (if b then ["."] else []).filter (fun name : String => name ≠ ".") = [] := by
    decide
  unfold steps
  rw [descent_eq hpath, hpath]
  show (((segments ('/' :: rest)).filter _).map _ ++ _).filter _ = _
  rw [List.filter_append, hend, List.append_nil, List.filter_map, hinner, List.filter_filter]
  show (([] :: segments rest).filter _).map _ = _
  rw [List.filter_cons_of_neg (by simp)]
  congr 1
  apply List.filter_congr
  intro segment _
  rw [Bool.eq_iff_iff]
  simp [isInner, and_comm]

/-- A directory is where the descent of a path ends. -/
theorem locate_eq_ok_iff_walk (habs : isAbsolute path = true)
    (hthere : host.disk.lookup? there = some .directory) :
    host.locate path = .ok there ↔ host.disk.walk [] (descent path) = .ok there := by
  have hne : path ≠ "" := by
    rintro rfl
    cases habs
  unfold locate
  rw [if_neg hne, if_pos habs, ← filter_steps habs, Disk.walk_filter_eq_ok_iff hthere]

/-! ## Names in directories -/

/-- Joining a name adds it to the steps; a separator at the end of the path is not needed any
more. -/
theorem exists_steps_join {name : String} (hpath : path ≠ "") (hname : IsName name) :
    ∃ before, steps (join path name) = before ++ [name] ∧
      (steps path = before ∨ steps path = before ++ ["."]) := by
  refine ⟨((segments path.toList).filter (!·.isEmpty)).map String.ofList, ?_, ?_⟩
  · obtain ⟨front, hjoin, hfront⟩ := exists_segments_join hpath hname.not_isAbsolute
    have hsegments : segments name.toList = [name.toList] := segments_of_not_mem hname.2.2.2
    -- the segments differ in an empty one at the end at most, which is no step
    have hkept : (segments path.toList).filter (!·.isEmpty) = front.filter (!·.isEmpty) := by
      rcases hfront with h | h
      · rw [h]
      · rw [h, List.filter_append]
        exact List.append_nil _
    have hlast : ((front ++ [name.toList]).getLast? == some []) = false := by
      rw [List.getLast?_concat, beq_eq_false_iff_ne]
      intro h
      exact hname.toList_ne_nil (Option.some.inj h)
    unfold steps
    rw [hjoin, hsegments]
    dsimp only
    rw [hlast, hkept, List.filter_append]
    simp [hname.toList_ne_nil]
  · unfold steps
    dsimp only
    split
    · exact .inr rfl
    · exact .inl (List.append_nil _)

/-- A path to a directory, with a name joined, leads to the entry with this name. -/
theorem locate_join {name : String} (hpath : host.locate path = .ok directory)
    (hdirectory : host.disk.lookup? directory = some .directory) (hname : IsName name) :
    host.locate (join path name) =
      if (host.disk.lookup? (directory ++ [name])).isSome then .ok (directory ++ [name])
      else .error .notFound := by
  have hne : path ≠ "" := by
    rintro rfl
    cases hpath
  obtain ⟨before, hsteps, hbefore⟩ := exists_steps_join hne hname
  unfold locate at hpath ⊢
  rw [if_neg hne] at hpath
  rw [if_neg (join_ne_empty hne hname.not_isAbsolute), isAbsolute_join_of_ne hne hname.not_isAbsolute,
    hsteps, Disk.walk_append]
  have hwalk : host.disk.walk (if isAbsolute path then [] else host.workingDirectory) before =
      .ok directory := by
    rcases hbefore with h | h
    · rwa [h] at hpath
    · -- the dot at the end leads from the directory to itself
      have hdot : (before ++ ["."]).filter (· ≠ ".") = before.filter (· ≠ ".") := by
        rw [List.filter_append]
        exact List.append_nil _
      rw [h, ← Disk.walk_filter_eq_ok_iff hdirectory, hdot] at hpath
      exact (Disk.walk_filter_eq_ok_iff hdirectory).mp hpath
  rw [hwalk, ok_bind, Disk.walk, hdirectory]
  dsimp only
  rw [if_neg hname.2.1, if_neg hname.2.2.1]
  rfl

/-- A name joined to the path of a directory leads to what the directory has under it. -/
theorem entryAt?_join {name : String} (hpath : host.locate path = .ok directory)
    (hdirectory : host.disk.lookup? directory = some .directory) (hname : IsName name) :
    host.entryAt? (join path name) = host.disk.lookup? (directory ++ [name]) := by
  unfold entryAt?
  rw [locate_join hpath hdirectory hname]
  rcases hentry : host.disk.lookup? (directory ++ [name]) with _ | entry
  · rfl
  · exact hentry

end Host

end Provision
