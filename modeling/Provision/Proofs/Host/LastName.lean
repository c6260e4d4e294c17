import Mathlib.Data.List.DropRight
import Provision.Proofs.Host.Component
import Provision.Proofs.Host.Walk

/-!
# Last names

The name a path is written with is what follows its last separator, once the separators at the end
are gone. Every text is written with one name and no other (`isWrittenWith_iff`): the name is empty
only where there is nothing but separators, so it cannot be looked for between two of those at the
end. A path that leads to a regular file has nothing to be ignored at its end: a separator, a dot or
a step upwards there would only lead on from directories to directories. So the name such a path is
written with is the one the file has, also when the path was given relative to another one or to the
home directory.
-/

namespace Provision

open HostPath

namespace HostPath

/-! ## The last segment -/

/-- A text with a separator has a last one. -/
theorem exists_last_separator {text : List Char} (h : '/' ∈ text) :
    ∃ before last, text = before ++ '/' :: last ∧ '/' ∉ last := by
  obtain ⟨after, before, hreverse, hafter⟩ := List.eq_append_cons_of_mem (List.mem_reverse.mpr h)
  refine ⟨before.reverse, after.reverse, ?_, fun hmem => hafter (List.mem_reverse.mp hmem)⟩
  rw [← List.reverse_reverse text, hreverse]
  simp

/-- What follows the last separator is the last segment. -/
theorem getLast?_segments_of_not_mem {last : List Char} (before : List Char) (h : '/' ∉ last) :
    (segments (before ++ '/' :: last)).getLast? = some last := by
  rw [segments_append_separator, segments_of_not_mem h, List.getLast?_concat]

/-- Backwards a text starts with its last segment, and only then comes a separator. -/
theorem exists_reverse_eq {text last : List Char} (hlast : (segments text).getLast? = some last) :
    ∃ tail, (∀ d ∈ tail.head?, d = '/') ∧ text.reverse = last.reverse ++ tail := by
  by_cases hseparator : '/' ∈ text
  · obtain ⟨before, after, rfl, hafter⟩ := exists_last_separator hseparator
    rw [getLast?_segments_of_not_mem before hafter] at hlast
    refine ⟨'/' :: before.reverse, by simp, ?_⟩
    rw [← Option.some.inj hlast]
    simp
  · rw [segments_of_not_mem hseparator] at hlast
    refine ⟨[], by simp, ?_⟩
    rw [← Option.some.inj hlast, List.append_nil]
    rfl

/-- A last segment that is not empty is the name the text is written with. -/
theorem writtenName_eq_of_getLast? {raw name : String}
    (hlast : (segments raw.toList).getLast? = some name.toList) (hne : name ≠ "") :
    writtenName raw = name := by
  have hmem : '/' ∉ name.toList := not_mem_of_mem_segments (List.mem_of_getLast? hlast)
  have hnil : name.toList ≠ [] := fun hnil => hne (String.toList_eq_nil_iff.mp hnil)
  obtain ⟨c, rest, hreverse⟩ := List.exists_cons_of_ne_nil (List.reverse_ne_nil_iff.mpr hnil)
  have hc : (c == '/') = false := by
    rw [beq_eq_false_iff_ne]
    rintro rfl
    apply hmem
    rw [← List.mem_reverse, hreverse]
    exact List.mem_cons_self
  have hall : ∀ d ∈ name.toList.reverse, (d != '/') = true := by
    intro d hd
    rw [bne_iff_ne]
    rintro rfl
    exact hmem (List.mem_reverse.mp hd)
  -- read from the back, the text is the last segment and then a separator or nothing
  obtain ⟨tail, htail, htext⟩ := exists_reverse_eq hlast
  have hdrop : (name.toList.reverse ++ tail).dropWhile (· == '/') = name.toList.reverse ++ tail := by
    rw [hreverse, List.cons_append, List.dropWhile_cons, hc]
    rfl
  have htake : tail.takeWhile (· != '/') = [] := by
    rcases tail with _ | ⟨d, tail⟩
    · rfl
    · have hd : d = '/' := htail d rfl
      rw [hd]
      rfl
  unfold writtenName
  rw [htext, hdrop, List.takeWhile_append_of_pos hall, htake, List.append_nil, List.reverse_reverse,
    String.ofList_toList]

/-! ## The one name of a text -/

/-- Whether a text is written with a name. The name starts the text or follows a separator, only
separators come after it, and it is empty only where the text has nothing else. -/
structure IsWrittenWith (raw name : String) : Prop where
  not_mem : '/' ∉ name.toList
  split : ∃ front back, raw = front ++ name ++ back ∧
    (front = "" ∨ front.toList.getLast? = some '/') ∧ ∀ c ∈ back.toList, c = '/'
  only_separators : name = "" → ∀ c ∈ raw.toList, c = '/'

section

variable {raw name back : String}

/-- The written name is what stands between the last two separators, those at the end aside. -/
theorem toList_writtenName (raw : String) :
    (writtenName raw).toList = (raw.toList.rdropWhile (· == '/')).rtakeWhile (· != '/') := by
  unfold writtenName List.rdropWhile List.rtakeWhile
  rw [String.toList_ofList, List.reverse_reverse]

/-- Once its last segment is taken from a text, nothing is left or a separator ends it. -/
theorem rdropWhile_eq_nil_or_getLast? (text : List Char) :
    text.rdropWhile (· != '/') = [] ∨ (text.rdropWhile (· != '/')).getLast? = some '/' := by
  refine or_iff_not_imp_left.mpr fun hne => ?_
  have hlast := List.rdropWhile_last_not _ _ hne
  rw [Bool.not_eq_true, bne_eq_false_iff_eq] at hlast
  rw [List.getLast?_eq_some_getLast hne, hlast]

/-- Once the separators at its end are gone, a text without a last segment is empty. -/
theorem rdropWhile_eq_nil_of_rtakeWhile {text : List Char}
    (h : (text.rdropWhile (· == '/')).rtakeWhile (· != '/') = []) :
    text.rdropWhile (· == '/') = [] := by
  by_contra hne
  have hlast := List.rtakeWhile_eq_nil_iff.mp h hne
  rw [Bool.not_eq_true, bne_eq_false_iff_eq] at hlast
  exact List.rdropWhile_last_not _ _ hne (beq_iff_eq.mpr hlast)

/-- A path is written with its written name. -/
theorem isWrittenWith_writtenName (raw : String) : IsWrittenWith raw (writtenName raw) := by
  refine ⟨?_, ⟨String.ofList ((raw.toList.rdropWhile (· == '/')).rdropWhile (· != '/')),
    String.ofList (raw.toList.rtakeWhile (· == '/')), ?_, ?_, ?_⟩, ?_⟩
  · intro hmem
    rw [toList_writtenName] at hmem
    exact absurd (List.mem_rtakeWhile_imp hmem) (by decide)
  · rw [← String.toList_inj, String.toList_append, String.toList_append, String.toList_ofList,
      String.toList_ofList, toList_writtenName, List.rdropWhile_append_rtakeWhile,
      List.rdropWhile_append_rtakeWhile]
  · rw [String.toList_ofList]
    exact (rdropWhile_eq_nil_or_getLast? _).imp_left fun hnil => by rw [hnil]
  · intro c hc
    rw [String.toList_ofList] at hc
    have hseparator := List.mem_rtakeWhile_imp hc
    exact beq_iff_eq.mp hseparator
  · -- without a name nothing is left of the text once its separators are gone
    intro hempty c hc
    have hnothing : (raw.toList.rdropWhile (· == '/')).rtakeWhile (· != '/') = [] := by
      rw [← toList_writtenName, hempty, String.toList_empty]
    have hseparator :=
      List.rdropWhile_eq_nil_iff.mp (rdropWhile_eq_nil_of_rtakeWhile hnothing) c hc
    exact beq_iff_eq.mp hseparator

/-- Separators at the end do not count. -/
theorem writtenName_append_separators (raw : String) (h : ∀ c ∈ back.toList, c = '/') :
    writtenName (raw ++ back) = writtenName raw := by
  have hback : ∀ c ∈ back.toList.reverse, (c == '/') = true := by
    intro c hc
    rw [beq_iff_eq]
    exact h c (List.mem_reverse.mp hc)
  unfold writtenName
  rw [String.toList_append, List.reverse_append, List.dropWhile_append_of_pos hback]

theorem writtenName_of_separators (h : ∀ c ∈ raw.toList, c = '/') : writtenName raw = "" := by
  have hnone := writtenName_append_separators "" h
  rwa [String.empty_append] at hnone

/-- A name that comes first, or after a separator, is the last segment. -/
theorem getLast?_segments_append {front : String} (hname : '/' ∉ name.toList)
    (hfront : front = "" ∨ front.toList.getLast? = some '/') :
    (segments (front ++ name).toList).getLast? = some name.toList := by
  rcases hfront with rfl | hfront
  · rw [String.empty_append, segments_of_not_mem hname]
    rfl
  · obtain ⟨before, hbefore⟩ := List.getLast?_eq_some_iff.mp hfront
    rw [String.toList_append, hbefore, List.append_assoc, List.singleton_append,
      getLast?_segments_of_not_mem before hname]

theorem IsWrittenWith.eq_writtenName (h : IsWrittenWith raw name) : name = writtenName raw := by
  by_cases hempty : name = ""
  · rw [hempty, writtenName_of_separators (h.only_separators hempty)]
  · obtain ⟨front, back, rfl, hfront, hback⟩ := h.split
    have hlast := getLast?_segments_append h.not_mem hfront
    rw [writtenName_append_separators _ hback, writtenName_eq_of_getLast? hlast hempty]

/-- Every text is written with one name, and with no other. -/
theorem isWrittenWith_iff : IsWrittenWith raw name ↔ name = writtenName raw :=
  ⟨fun h => h.eq_writtenName, fun h => h ▸ isWrittenWith_writtenName raw⟩

end

/-! ## Joined paths -/

variable {base path : HostPath}

/-- Joining keeps the last segment. -/
theorem getLast?_segments_join (base path : HostPath) :
    (segments (join base path).toList).getLast? = (segments path.toList).getLast? := by
  by_cases habs : isAbsolute path = true
  · rw [join_of_isAbsolute base habs]
  · rw [Bool.not_eq_true] at habs
    by_cases hbase : base = ""
    · rw [hbase, join_empty]
    · obtain ⟨front, hfront, -⟩ := exists_segments_join hbase habs
      rw [hfront, List.getLast?_append_of_ne_nil _ (segments_ne_nil _)]

/-- A last segment that is a name is the last component. -/
theorem getLast?_components {last : List Char}
    (hlast : (segments path.toList).getLast? = some last) (hinner : isInner last = true) :
    (components path).getLast? = some last := by
  obtain ⟨front, hsegments⟩ := List.getLast?_eq_some_iff.mp hlast
  unfold components
  rw [hsegments]
  rcases front with _ | ⟨first, front⟩
  · -- the path is that one name
    rcases last with _ | ⟨c, last⟩
    · cases hinner
    · rfl
  · rw [componentsOf_append (List.cons_ne_nil first front) (List.cons_ne_nil last []),
      List.filter_cons_of_pos hinner, List.filter_nil, List.getLast?_concat]

end HostPath

namespace Disk

variable {disk : Disk} {here there : Location}

/-- A walk that ends at a regular file goes down to it by its name. -/
theorem exists_directory_of_walk {before : List String} {step : String} {text : Option String}
    (hparents : disk.HasParents here) (h : disk.walk here (before ++ [step]) = .ok there)
    (hfile : disk.lookup? there = some (.file text)) :
    step ≠ "." ∧ step ≠ ".." ∧ ∃ directory, there = directory ++ [step] := by
  obtain ⟨next, hbefore, hlast⟩ := walk_append_eq_ok_iff.mp h
  obtain ⟨hnext, after, hmove, hend⟩ := walk_cons_eq_ok_iff.mp hlast
  cases hend
  have hdirectory : disk.IsDirectory next := (hparents.of_walk hbefore).isDirectory hnext
  cases hmove with
  | stay =>
    rw [hnext] at hfile
    cases hfile
  | up =>
    rw [hdirectory _ (List.dropLast_prefix next)] at hfile
    cases hfile
  | down hdot hup => exact ⟨hdot, hup, next, rfl⟩

end Disk

namespace Host

variable {host : Host} {path : HostPath}

/-- The last segment is the last step, and an empty one asks for a directory. -/
theorem exists_steps_concat {last : List Char}
    (hlast : (segments path.toList).getLast? = some last) :
    ∃ before, steps path = before ++ [if last = [] then "." else String.ofList last] := by
  obtain ⟨front, hsegments⟩ := List.getLast?_eq_some_iff.mp hlast
  unfold steps
  dsimp only
  by_cases hempty : last = []
  · rw [if_pos hempty, hlast, hempty]
    exact ⟨_, rfl⟩
  · have hend : ((segments path.toList).getLast? == some []) = false := by
      rw [hlast, beq_eq_false_iff_ne]
      intro h
      exact hempty (Option.some.inj h)
    refine ⟨(front.filter (!·.isEmpty)).map String.ofList, ?_⟩
    rw [if_neg hempty, hend, hsegments, List.filter_append]
    simp [hempty]

/-- A path that leads to a regular file ends in the name of the file. -/
theorem exists_name_of_file (hparents : host.disk.HasParents host.workingDirectory)
    {text : Option String} (h : host.entryAt? path = some (.file text)) :
    ∃ directory name, IsName name ∧ (segments path.toList).getLast? = some name.toList ∧
      host.locate path = .ok (directory ++ [name]) := by
  obtain ⟨there, hlocate, hfile⟩ := entryAt?_eq_some_iff.mp h
  obtain ⟨last, hlast⟩ : ∃ last, (segments path.toList).getLast? = some last :=
    ⟨_, List.getLast?_eq_some_getLast (segments_ne_nil _)⟩
  obtain ⟨before, hsteps⟩ := exists_steps_concat hlast
  have hne : path ≠ "" := by
    rintro rfl
    cases hlocate
  have hwalk := hlocate
  unfold locate at hwalk
  rw [if_neg hne, hsteps] at hwalk
  have hbegin : host.disk.HasParents (if isAbsolute path then [] else host.workingDirectory) := by
    split
    · -- nothing is above the root
      intro above habove hne
      exact absurd (List.prefix_nil.mp habove) hne
    · exact hparents
  obtain ⟨hdot, hup, directory, hthere⟩ := Disk.exists_directory_of_walk hbegin hwalk hfile
  have hempty : last ≠ [] := by
    rintro rfl
    exact hdot rfl
  rw [if_neg hempty] at hdot hup hthere
  have hseparator : '/' ∉ last := not_mem_of_mem_segments (List.mem_of_getLast? hlast)
  have hname : IsName (String.ofList last) := by
    refine ⟨fun h => hempty ?_, hdot, hup, by rwa [String.toList_ofList]⟩
    rw [← String.toList_ofList (l := last), h]
    rfl
  refine ⟨directory, String.ofList last, hname, ?_, ?_⟩
  · rw [String.toList_ofList, hlast]
  · rw [hlocate, hthere]

/-! ## Names as written and names of files -/

/-- Expanding keeps the last part, unless it is empty. -/
theorem getLast?_segments_expand {raw : String} {last : List Char} (base : HostPath)
    (hlast : (segments (host.expand raw base).toList).getLast? = some last) (hne : last ≠ []) :
    (segments raw.toList).getLast? = some last := by
  unfold expand at hlast
  split at hlast
  · -- nothing is written after the home directory
    rw [getLast?_segments_join] at hlast
    exact absurd (Option.some.inj hlast).symm hne
  · next rest hraw =>
    rw [getLast?_segments_join, String.toList_ofList] at hlast
    have hhome : segments ('~' :: '/' :: rest) = ['~'] :: segments rest := rfl
    rw [hraw, hhome, List.getLast?_cons_of_ne_nil (segments_ne_nil rest), hlast]
  · rwa [getLast?_segments_join] at hlast

/-- A written path that leads to a regular file is written with the name of the file, and this name
is the last component of the path it stands for. -/
theorem writtenName_of_file (hparents : host.disk.HasParents host.workingDirectory) {raw : String}
    {base : HostPath} {text : Option String} (h : host.entryAt? (host.expand raw base) = some (.file text)) :
    IsName (writtenName raw) ∧
      (components (host.expand raw base)).getLast? = some (writtenName raw).toList ∧
      ∃ directory, host.locate (host.expand raw base) = .ok (directory ++ [writtenName raw]) := by
  obtain ⟨directory, name, hname, hlast, hlocate⟩ := exists_name_of_file hparents h
  have hwritten : writtenName raw = name :=
    writtenName_eq_of_getLast? (getLast?_segments_expand base hlast hname.toList_ne_nil) hname.1
  have hinner : isInner name.toList = true := by
    simp [isInner, hname.toList_ne_nil, hname.toList_ne_dot]
  rw [hwritten]
  exact ⟨hname, getLast?_components hlast hinner, directory, hlocate⟩

end Host

end Provision
