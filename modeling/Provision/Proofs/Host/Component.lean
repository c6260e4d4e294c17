import Provision.Proofs.Host.Path

/-!
# Components of paths

Paths are compared component by component. Separators in a row count once, separators at the end
and lone dots not at all, and the root is a component of its own; a step upwards stays, since what
it leads to depends on the disk. A path that is not absolute only adds components when it is joined
to a base, so what is joined starts with the base.
-/

namespace Provision.HostPath

/-- Whether a segment after the first one is a component: the empty one and the lone dot are not. -/
def isInner (segment : List Char) : Bool :=
  !segment.isEmpty && segment != ['.']

/-- The components among the segments of a path. An empty first segment is the root, unless it is
the only one; a lone dot in its place makes the path relative and counts. -/
def componentsOf : List (List Char) → List (List Char)
  | [] | [[]] => []
  | first :: rest => (if first.isEmpty then ['/'] else first) :: rest.filter isInner

/-- The components of a path, with a separator standing for the root. -/
def components (path : HostPath) : List (List Char) :=
  componentsOf (segments path.toList)

/-- Whether a path starts with a base, component by component. -/
def StartsWith (path base : HostPath) : Prop :=
  components base <+: components path

instance (path base : HostPath) : Decidable (StartsWith path base) :=
  inferInstanceAs (Decidable (_ <+: _))

example : components "/srv//./code/../www/" = ["/", "srv", "code", "..", "www"].map String.toList :=
  by decide

/-! ## Segments of joined texts -/

theorem segments_ne_nil (text : List Char) : segments text ≠ [] := by
  rcases text with _ | ⟨c, text⟩
  · exact List.cons_ne_nil _ _
  · by_cases hc : c = '/'
    · rw [hc]
      exact List.cons_ne_nil _ _
    · rw [segments.eq_3 c text hc]
      split <;> exact List.cons_ne_nil _ _

/-- A separator ends one segment and starts the next one. -/
theorem segments_append_separator (before after : List Char) :
    segments (before ++ '/' :: after) = segments before ++ segments after := by
  induction before with
  | nil => rfl
  | cons c before ih =>
    by_cases hc : c = '/'
    · rw [hc]
      exact congrArg ([] :: ·) ih
    · obtain ⟨first, others, hbefore⟩ := List.exists_cons_of_ne_nil (segments_ne_nil before)
      rw [hbefore, List.cons_append] at ih
      rw [List.cons_append, segments_cons hc ih, segments_cons hc hbefore, List.cons_append]

theorem not_mem_of_mem_segments {text part : List Char} (h : part ∈ segments text) :
    '/' ∉ part := by
  induction text generalizing part with
  | nil =>
    rw [List.mem_singleton.mp h]
    exact List.not_mem_nil
  | cons c text ih =>
    by_cases hc : c = '/'
    · rw [hc] at h
      rcases List.mem_cons.mp h with rfl | h
      · exact List.not_mem_nil
      · exact ih h
    · obtain ⟨first, others, htext⟩ := List.exists_cons_of_ne_nil (segments_ne_nil text)
      rw [segments_cons hc htext] at h
      rcases List.mem_cons.mp h with rfl | h
      · have hfirst : '/' ∉ first := ih (by rw [htext]; exact List.mem_cons_self)
        simp [Ne.symm hc, hfirst]
      · exact ih (by rw [htext]; exact List.mem_cons_of_mem first h)

/-- All but the first of several segments count alike, whichever come after them. -/
theorem componentsOf_append {before after : List (List Char)} (hbefore : before ≠ [])
    (hafter : after ≠ []) :
    componentsOf (before ++ after) = componentsOf (before ++ [[]]) ++ after.filter isInner := by
  obtain ⟨first, before, rfl⟩ := List.exists_cons_of_ne_nil hbefore
  have hseveral : ∀ others : List (List Char), others ≠ [] → componentsOf (first :: others) =
      (if first.isEmpty then ['/'] else first) :: others.filter isInner := by
    intro others hothers
    obtain ⟨second, others, rfl⟩ := List.exists_cons_of_ne_nil hothers
    rcases first with _ | ⟨c, first⟩ <;> rfl
  have hempty : [[]].filter isInner = [] := rfl
  rw [List.cons_append, List.cons_append, hseveral _ (by simp [hafter]), hseveral _ (by simp),
    List.filter_append, List.filter_append, hempty, List.append_nil, List.cons_append]

/-- An empty segment at the end does not count. -/
theorem componentsOf_concat_nil {text : List Char} (h : text ≠ []) :
    componentsOf (segments text ++ [[]]) = componentsOf (segments text) := by
  obtain ⟨first, rest, hsegments⟩ := List.exists_cons_of_ne_nil (segments_ne_nil text)
  rw [hsegments, List.cons_append]
  rcases first with _ | ⟨c, first⟩
  · rcases rest with _ | ⟨second, rest⟩
    · -- a text with one segment is that segment
      have hone := ofSegments_segments text
      rw [hsegments] at hone
      exact absurd hone.symm h
    · show ['/'] :: ((second :: rest) ++ [[]]).filter isInner = _
      rw [List.filter_append]
      exact congrArg (['/'] :: ·) (List.append_nil _)
  · show (c :: first) :: (rest ++ [[]]).filter isInner = (c :: first) :: rest.filter isInner
    rw [List.filter_append]
    exact congrArg ((c :: first) :: ·) (List.append_nil _)

/-! ## Joined paths -/

variable {base path : HostPath}

/-- Joined to the empty path, a path stays as it is. -/
theorem join_empty (path : HostPath) : join "" path = path := by
  unfold join
  split
  · rfl
  · exact String.empty_append

/-- A base stays in front of a relative path that is joined to it. -/
theorem exists_join_eq_append (base : HostPath) (hpath : isAbsolute path = false) :
    ∃ rest, join base path = base ++ rest := by
  unfold join
  rw [hpath, if_neg Bool.false_ne_true]
  split
  · exact ⟨path, rfl⟩
  · exact ⟨"/" ++ path, String.append_assoc⟩

/-- A relative path joined to another one is absolute exactly if that one is. -/
theorem isAbsolute_join_of_ne (hbase : base ≠ "")
    (hpath : isAbsolute path = false) : isAbsolute (join base path) = isAbsolute base := by
  obtain ⟨rest, hjoin⟩ := exists_join_eq_append base hpath
  obtain ⟨c, text, htext⟩ := List.exists_cons_of_ne_nil fun h => hbase (String.toList_eq_nil_iff.mp h)
  unfold isAbsolute
  rw [hjoin, String.toList_append, htext]
  rfl

theorem join_ne_empty (hbase : base ≠ "") (hpath : isAbsolute path = false) :
    join base path ≠ "" := by
  obtain ⟨rest, hjoin⟩ := exists_join_eq_append base hpath
  rw [hjoin]
  intro h
  exact hbase (String.append_eq_empty_iff.mp h).1

/-- The segments of a joined path are those of the second part, after those of the base without the
empty one at its end. -/
theorem exists_segments_join (hbase : base ≠ "") (hpath : isAbsolute path = false) :
    ∃ front, segments (join base path).toList = front ++ segments path.toList ∧
      (segments base.toList = front ∨ segments base.toList = front ++ [[]]) := by
  have hempty : base.toList.isEmpty = false :=
    List.isEmpty_eq_false_iff.mpr fun h => hbase (String.toList_eq_nil_iff.mp h)
  unfold join
  rw [hpath, if_neg Bool.false_ne_true, hempty, Bool.false_or]
  by_cases hend : base.toList.getLast? = some '/'
  · -- the separator between the two is the end of the base
    obtain ⟨before, hbefore⟩ := List.getLast?_eq_some_iff.mp hend
    refine ⟨segments before, ?_, .inr ?_⟩
    · rw [if_pos (beq_iff_eq.mpr hend), String.toList_append, hbefore, List.append_assoc,
        List.singleton_append, segments_append_separator]
    · rw [hbefore, segments_append_separator]
      rfl
  · refine ⟨segments base.toList, ?_, .inl rfl⟩
    have hseparator : "/".toList = ['/'] := rfl
    rw [if_neg (fun h => hend (beq_iff_eq.mp h)), String.toList_append, String.toList_append,
      hseparator, List.append_assoc, List.singleton_append, segments_append_separator]

/-! ## Components of joined paths -/

/-- Joining a relative path adds its segments to the components of the base. -/
theorem components_join (hbase : base ≠ "") (hpath : isAbsolute path = false) :
    components (join base path) = components base ++ (segments path.toList).filter isInner := by
  have htext : base.toList ≠ [] := fun h => hbase (String.toList_eq_nil_iff.mp h)
  obtain ⟨front, hjoin, hfront⟩ := exists_segments_join hbase hpath
  have hne : front ≠ [] := by
    rintro rfl
    rcases hfront with h | h
    · exact segments_ne_nil _ h
    · -- only the empty text has one empty segment
      have htext' := ofSegments_segments base.toList
      rw [h] at htext'
      exact htext htext'.symm
  unfold components
  rw [hjoin, componentsOf_append hne (segments_ne_nil _)]
  rcases hfront with h | h
  · rw [← h, componentsOf_concat_nil htext]
  · rw [h]

/-- What a relative path is joined to stays in front. -/
theorem startsWith_join (base : HostPath) (hpath : isAbsolute path = false) :
    StartsWith (join base path) base := by
  unfold StartsWith
  by_cases hbase : base = ""
  · rw [hbase]
    exact List.nil_prefix
  · rw [components_join hbase hpath]
    exact List.prefix_append _ _

/-- An absolute path stands for itself, whatever it is joined to. -/
theorem join_of_isAbsolute (base : HostPath) (h : isAbsolute path = true) : join base path = path := by
  unfold join
  rw [if_pos h]

/-- A name that is joined is the last component. -/
theorem components_join_name {name : String} (base : HostPath) (hname : IsName name) :
    components (join base name) = components base ++ [name.toList] := by
  have hinner : isInner name.toList = true := by
    unfold isInner
    rw [List.isEmpty_eq_false_iff.mpr hname.toList_ne_nil, bne_iff_ne.mpr hname.toList_ne_dot]
    rfl
  have hsegments : segments name.toList = [name.toList] := segments_of_not_mem hname.2.2.2
  by_cases hbase : base = ""
  · rw [hbase, join_empty]
    unfold components
    rw [hsegments]
    rcases htext : name.toList with _ | ⟨c, text⟩
    · exact absurd htext hname.toList_ne_nil
    · rfl
  · rw [components_join hbase hname.not_isAbsolute, hsegments, List.filter_cons_of_pos hinner,
      List.filter_nil]

end Provision.HostPath
