import Mathlib.Data.List.Basic
import Provision.Host.Basic

/-!
# Paths of locations

The path of a location is its names, each after one separator. Its segments are those names again,
so joining a name to it gives the path of the entry with that name, and the directories above it are
those of the locations above, nearest first. What an absolute path is extended to is absolute.
-/

namespace Provision

namespace HostPath

/-- Whether a text can name an entry: it is neither empty nor a dot step, and has no separator. -/
def IsName (name : String) : Prop :=
  name ≠ "" ∧ name ≠ "." ∧ name ≠ ".." ∧ '/' ∉ name.toList

instance (name : String) : Decidable (IsName name) :=
  inferInstanceAs (Decidable (_ ∧ _ ∧ _ ∧ _))

theorem IsName.toList_ne_nil {name : String} (h : IsName name) : name.toList ≠ [] :=
  fun hnil => h.1 (String.toList_eq_nil_iff.mp hnil)

theorem IsName.toList_ne_dot {name : String} (h : IsName name) : name.toList ≠ ['.'] :=
  fun hdot => h.2.1 (String.toList_injective hdot)

theorem IsName.not_isAbsolute {name : String} (h : IsName name) : isAbsolute name = false := by
  unfold isAbsolute
  rcases hname : name.toList with _ | ⟨c, text⟩
  · rfl
  · have hc : c ≠ '/' := by
      intro hc
      apply h.2.2.2
      rw [hname, hc]
      exact List.mem_cons_self
    exact beq_eq_false_iff_ne.mpr fun hhead => hc (Option.some.inj hhead)

/-! ## Segments -/

/-- A character other than a separator belongs to the first part. -/
theorem segments_cons {c : Char} {rest first : List Char} {others : List (List Char)} (hc : c ≠ '/')
    (h : segments rest = first :: others) : segments (c :: rest) = (c :: first) :: others := by
  rw [segments.eq_3 c rest hc, h]

/-- A text without separators before a separator is the first part. -/
theorem segments_append {part : List Char} (h : '/' ∉ part) (rest : List Char) :
    segments (part ++ '/' :: rest) = part :: segments rest := by
  induction part with
  | nil => rfl
  | cons c part ih =>
    have hc : c ≠ '/' := fun hc => h (hc ▸ List.mem_cons_self)
    exact segments_cons hc (ih fun hpart => h (List.mem_cons_of_mem c hpart))

/-- A text without separators is its only part. -/
theorem segments_of_not_mem {part : List Char} (h : '/' ∉ part) : segments part = [part] := by
  induction part with
  | nil => rfl
  | cons c part ih =>
    have hc : c ≠ '/' := fun hc => h (hc ▸ List.mem_cons_self)
    exact segments_cons hc (ih fun hpart => h (List.mem_cons_of_mem c hpart))

/-- Parts are put together with separators between them. -/
theorem ofSegments_cons {first : List Char} {others : List (List Char)} (h : others ≠ []) :
    ofSegments (first :: others) = first ++ '/' :: ofSegments others := by
  rcases others with _ | ⟨second, others⟩
  · exact absurd rfl h
  · rfl

/-- Parts without separators are the segments of the text they make. -/
theorem segments_ofSegments {parts : List (List Char)} (hne : parts ≠ [])
    (h : ∀ part ∈ parts, '/' ∉ part) : segments (ofSegments parts) = parts := by
  induction parts with
  | nil => exact absurd rfl hne
  | cons first others ih =>
    have hfirst := h first List.mem_cons_self
    by_cases hothers : others = []
    · rw [hothers]
      exact segments_of_not_mem hfirst
    · rw [ofSegments_cons hothers, segments_append hfirst, ih hothers]
      intro part hpart
      exact h part (List.mem_cons_of_mem first hpart)

/-- The parts of a text make the text again. -/
theorem ofSegments_segments (text : List Char) : ofSegments (segments text) = text := by
  induction text with
  | nil => rfl
  | cons c text ih =>
    have hne : segments text ≠ [] := by
      intro h
      rw [h] at ih
      rw [← ih] at h
      cases h
    by_cases hc : c = '/'
    · rw [hc]
      show ofSegments ([] :: segments text) = _
      rw [ofSegments_cons hne, ih]
      rfl
    · obtain ⟨first, others, hparts⟩ := List.exists_cons_of_ne_nil hne
      rw [segments_cons hc hparts, ← ih, hparts]
      rcases others with _ | ⟨second, others⟩ <;> rfl

/-! ## Absolute paths -/

/-- Whether a path is absolute and in normal form: it has no dot steps, and no separator follows
another one or ends it. -/
def IsNormal (path : HostPath) : Prop :=
  path = "/" ∨ isAbsolute path = true ∧
    ∀ part ∈ (segments path.toList).tail, IsName (String.ofList part)

instance (path : HostPath) : Decidable (IsNormal path) :=
  inferInstanceAs (Decidable (_ ∨ _ ∧ _))

/-- The location that a path in normal form names. -/
def location (path : HostPath) : List String :=
  if path = "/" then [] else (segments path.toList).tail.map String.ofList

/-- What starts with an absolute path is absolute. -/
theorem isAbsolute_append {base : HostPath} (h : isAbsolute base = true) (path : String) :
    isAbsolute (base ++ path) = true := by
  unfold isAbsolute at h ⊢
  rw [String.toList_append]
  rcases htext : base.toList with _ | ⟨c, text⟩
  · rw [htext] at h
    cases h
  · rw [htext] at h
    exact h

/-- What is joined to an absolute path is absolute. -/
theorem isAbsolute_join {base : HostPath} (h : isAbsolute base = true) (path : HostPath) :
    isAbsolute (join base path) = true := by
  unfold join
  split
  · assumption
  · split
    · exact isAbsolute_append h path
    · exact isAbsolute_append (isAbsolute_append h "/") path

end HostPath

namespace Host

open HostPath

/-- Expanded paths are absolute if the home directory and the base are. -/
theorem isAbsolute_expand {host : Host} {base : HostPath} (hhome : isAbsolute host.home = true)
    (hbase : isAbsolute base = true) (raw : String) : isAbsolute (host.expand raw base) = true := by
  unfold expand
  split
  · exact isAbsolute_join hhome ""
  · exact isAbsolute_join hhome _
  · exact isAbsolute_join hbase raw

/-! ## The path of a location -/

theorem toList_pathOf (location : Location) :
    (pathOf location).toList = '/' :: ofSegments (location.map String.toList) := by
  -- the library joins with separators just as paths do
  have hsegments : ∀ parts : List (List Char), List.intercalate ['/'] parts = ofSegments parts := by
    intro parts
    induction parts with
    | nil => rfl
    | cons first others ih =>
      by_cases hothers : others = []
      · rw [hothers]
        exact List.intercalate_singleton
      · rw [List.intercalate_cons_of_ne_nil hothers, ih, ofSegments_cons hothers,
          List.append_assoc]
        rfl
  unfold pathOf
  rw [String.toList_append, String.toList_intercalate]
  exact congrArg ('/' :: ·) (hsegments _)

theorem isAbsolute_pathOf (location : Location) : isAbsolute (pathOf location) = true := by
  unfold isAbsolute
  rw [toList_pathOf]
  rfl

/-- A path in normal form is the path of the location it names. -/
theorem pathOf_location {path : HostPath} (h : IsNormal path) :
    pathOf (HostPath.location path) = path := by
  unfold HostPath.location
  by_cases hroot : path = "/"
  · rw [if_pos hroot, hroot]
    rfl
  · rw [if_neg hroot]
    obtain ⟨habsolute, -⟩ := h.resolve_left hroot
    obtain ⟨rest, hrest⟩ : ∃ rest, path.toList = '/' :: rest :=
      List.head?_eq_some_iff.mp (eq_of_beq habsolute)
    have hid : String.toList ∘ String.ofList = id := funext fun _ => String.toList_ofList
    apply String.toList_injective
    rw [toList_pathOf, List.map_map, hid, List.map_id, hrest]
    exact congrArg ('/' :: ·) (ofSegments_segments rest)

/-- The components of a normal path are names. -/
theorem isName_of_mem_location {path : HostPath} (h : IsNormal path) {name : String}
    (hname : name ∈ HostPath.location path) : IsName name := by
  unfold HostPath.location at hname
  by_cases hroot : path = "/"
  · rw [if_pos hroot] at hname
    cases hname
  · rw [if_neg hroot] at hname
    obtain ⟨part, hpart, rfl⟩ := List.mem_map.mp hname
    exact (h.resolve_left hroot).2 part hpart

/-- The path of an entry is that of its directory with a separator and its name. -/
theorem pathOf_concat_of_ne_nil {location : Location} (hne : location ≠ []) (name : String) :
    pathOf (location ++ [name]) = pathOf location ++ "/" ++ name := by
  unfold pathOf
  rw [String.intercalate_append_of_ne_nil hne (List.cons_ne_nil name []),
    String.intercalate_singleton, String.append_assoc, String.append_assoc, String.append_assoc]

/-- The path of a location ends in the last name of the location. -/
theorem exists_pathOf_concat (location : Location) (name : String) :
    ∃ before, pathOf (location ++ [name]) = before ++ name := by
  by_cases hne : location = []
  · exact ⟨"/", by rw [hne]; rfl⟩
  · exact ⟨pathOf location ++ "/", pathOf_concat_of_ne_nil hne name⟩

/-! ## What names are joined and split into -/

variable {location : Location} {name : String}

/-- Names with separators between them have these names as parts. -/
theorem segments_names (hne : location ≠ []) (hnames : ∀ name ∈ location, IsName name) :
    segments (ofSegments (location.map String.toList)) = location.map String.toList := by
  apply segments_ofSegments
  · intro h
    exact hne (List.map_eq_nil_iff.mp h)
  · intro part hpart
    obtain ⟨name, hname, rfl⟩ := List.mem_map.mp hpart
    exact (hnames name hname).2.2.2

/-- The parts of the path of a location are the names, behind an empty one for the root. -/
theorem segments_pathOf (hne : location ≠ []) (hnames : ∀ name ∈ location, IsName name) :
    segments (pathOf location).toList = [] :: location.map String.toList := by
  rw [toList_pathOf]
  exact congrArg ([] :: ·) (segments_names hne hnames)

/-- A lookup follows the names of a location. -/
theorem steps_pathOf (hne : location ≠ []) (hnames : ∀ name ∈ location, IsName name) :
    steps (pathOf location) = location := by
  have hpart : ∀ part ∈ location.map String.toList, part ≠ [] := by
    intro part hpart
    obtain ⟨name, hname, rfl⟩ := List.mem_map.mp hpart
    exact (hnames name hname).toList_ne_nil
  have hfilter : ([] :: location.map String.toList).filter (!·.isEmpty) =
      location.map String.toList := by
    rw [List.filter_cons_of_neg (by decide), List.filter_eq_self]
    intro part hmem
    rw [Bool.not_eq_true', List.isEmpty_eq_false_iff]
    exact hpart part hmem
  -- the last segment is a name, so no step asks for a directory
  have hlast : (([] :: location.map String.toList).getLast? == some []) = false := by
    have hparts : location.map String.toList ≠ [] := fun h => hne (List.map_eq_nil_iff.mp h)
    rw [beq_eq_false_iff_ne, List.getLast?_cons_of_ne_nil hparts]
    intro h
    exact hpart [] (List.mem_of_getLast? h) rfl
  unfold steps
  rw [segments_pathOf hne hnames]
  dsimp only
  rw [hfilter, hlast, List.map_map]
  have hid : String.ofList ∘ String.toList = id := funext fun _ => String.ofList_toList
  rw [hid, List.map_id]
  exact List.append_nil location

/-- Joining a name to the path of a location gives the path of the entry with that name. -/
theorem join_pathOf (hnames : ∀ name ∈ location, IsName name) (hname : IsName name) :
    join (pathOf location) name = pathOf (location ++ [name]) := by
  unfold join
  rw [hname.not_isAbsolute, if_neg Bool.false_ne_true]
  rcases List.eq_nil_or_concat' location with rfl | ⟨init, last, rfl⟩
  · rfl
  · have hlast : IsName last := hnames last (by simp)
    obtain ⟨before, hbefore⟩ := exists_pathOf_concat init last
    have hend : ((pathOf (init ++ [last])).toList.getLast? == some '/') = false := by
      rw [hbefore, String.toList_append, beq_eq_false_iff_ne, List.getLast?_append,
        List.getLast?_eq_some_getLast hlast.toList_ne_nil, Option.some_or]
      intro h
      exact hlast.2.2.2 (Option.some.inj h ▸ List.getLast_mem hlast.toList_ne_nil)
    have hempty : (pathOf (init ++ [last])).toList.isEmpty = false := by
      rw [toList_pathOf]
      rfl
    rw [hend, hempty, if_neg (by decide), ← pathOf_concat_of_ne_nil (by simp)]

/-! ## The directories above a location -/

theorem isComponent_of_isName (hname : IsName name) (before : List (List Char)) :
    isComponent true name.toList before = true := by
  unfold isComponent
  rw [List.isEmpty_eq_false_iff.mpr hname.toList_ne_nil, bne_iff_ne.mpr hname.toList_ne_dot]
  rfl

theorem trimmed_names (hnames : ∀ name ∈ location, IsName name) :
    trimmed true (location.map String.toList) = location.map String.toList := by
  rcases location with _ | ⟨name, location⟩
  · rfl
  · rw [List.map_cons, trimmed, if_pos (isComponent_of_isName (hnames name List.mem_cons_self) _)]

theorem ofBackwards_names (location : Location) :
    ofBackwards true (location.map String.toList).reverse = pathOf location := by
  apply String.toList_injective
  rw [toList_pathOf, ofBackwards, List.reverse_reverse, String.toList_ofList]
  rfl

/-- The directories above the path of a location, by its names. -/
theorem parents_pathOf (hnames : ∀ name ∈ location, IsName name) : parents (pathOf location) =
    (shortened true (location.reverse.map String.toList)).map (ofBackwards true) := by
  unfold parents backwards
  rw [isAbsolute_pathOf]
  by_cases hne : location = []
  · rw [hne]
    rfl
  · rw [toList_pathOf, List.map_reverse]
    exact congrArg (fun parts => (shortened true parts.reverse).map (ofBackwards true))
      (segments_names hne hnames)

/-- Above the entry with a name is its directory, and what is above that. -/
theorem parents_pathOf_concat (hnames : ∀ name ∈ location, IsName name) (hname : IsName name) :
    parents (pathOf (location ++ [name])) = pathOf location :: parents (pathOf location) := by
  have hall : ∀ other ∈ location ++ [name], IsName other := by
    intro other hother
    rcases List.mem_append.mp hother with hother | hother
    · exact hnames other hother
    · exact List.mem_singleton.mp hother ▸ hname
  have hreverse : ∀ other ∈ location.reverse, IsName other := fun other hother =>
    hnames other (List.mem_reverse.mp hother)
  -- backwards the name comes first, and being a component it alone is dropped
  rw [parents_pathOf hall, parents_pathOf hnames, List.reverse_append, List.reverse_singleton,
    List.singleton_append, List.map_cons, shortened, if_pos (isComponent_of_isName hname _),
    List.map_cons, trimmed_names hreverse, List.map_reverse, ofBackwards_names]

/-- The parent of an entry's path is that of its directory. -/
theorem parent?_pathOf_concat (hnames : ∀ name ∈ location, IsName name) (hname : IsName name) :
    parent? (pathOf (location ++ [name])) = some (pathOf location) := by
  unfold parent?
  rw [parents_pathOf_concat hnames hname]
  rfl

end Host

end Provision
