import Provision.Proofs.Attempt
import Provision.Proofs.Host.Disk

/-!
# Walks

A walk follows components one at a time, and each step starts from a directory: a lone dot stays
there, a step upwards goes to the directory above, and a name goes down to the entry with this name.
A single step moves by one level at most. So a walk that starts below a location and ends elsewhere,
or the other way round, passes the location itself.
-/

namespace Provision.Disk

open Attempt HostPath

variable {disk : Disk} {here there via : Location}

/-! ## Single steps -/

/-- What one component does to the location of a walk. -/
inductive Moves (disk : Disk) (here : Location) : String → Location → Prop
  | stay {name : String} (hname : name = ".") : Moves disk here name here
  | up {name : String} (hname : name = "..") : Moves disk here name here.dropLast
  | down {name : String} (hdot : name ≠ ".") (hup : name ≠ "..")
      (hentry : (disk.lookup? (here ++ [name])).isSome = true) : Moves disk here name (here ++ [name])

/-- A walk goes on from directories only. -/
theorem walk_cons_eq_ok_iff {name : String} {rest : List String} :
    disk.walk here (name :: rest) = .ok there ↔ disk.lookup? here = some .directory ∧
      ∃ next, disk.Moves here name next ∧ disk.walk next rest = .ok there := by
  rw [walk]
  rcases hhere : disk.lookup? here with _ | _ | text
  · simp
  · -- in a directory the component alone decides
    have hself : (some Entry.directory = some Entry.directory) := rfl
    dsimp only
    rw [and_iff_right hself]
    by_cases hdot : name = "."
    · rw [if_pos hdot]
      constructor
      · intro h
        exact ⟨here, .stay hdot, h⟩
      · intro h
        obtain ⟨next, hmove, h⟩ := h
        cases hmove with
        | stay => exact h
        | up hname => simp [hname] at hdot
        | down hne => exact absurd hdot hne
    by_cases hup : name = ".."
    · rw [if_neg hdot, if_pos hup]
      constructor
      · intro h
        exact ⟨here.dropLast, .up hup, h⟩
      · intro h
        obtain ⟨next, hmove, h⟩ := h
        cases hmove with
        | stay hname => exact absurd hname hdot
        | up => exact h
        | down _ hne => exact absurd hup hne
    rw [if_neg hdot, if_neg hup]
    constructor
    · intro h
      split at h
      · next hentry => exact ⟨here ++ [name], .down hdot hup hentry, h⟩
      · cases h
    · intro h
      obtain ⟨next, hmove, h⟩ := h
      cases hmove with
      | stay hname => exact absurd hname hdot
      | up hname => exact absurd hname hup
      | down _ _ hentry => rw [if_pos hentry, h]
  · simp

/-- A directory with directories above it is one all the way down. -/
theorem HasParents.isDirectory (h : disk.HasParents here)
    (hhere : disk.lookup? here = some .directory) : disk.IsDirectory here := by
  intro above habove
  by_cases heq : above = here
  · rw [heq, hhere]
  · exact h above habove heq

/-- A step from a directory stays among what is in directories. -/
theorem Moves.hasParents {name : String} (h : disk.Moves here name there)
    (hhere : disk.IsDirectory here) : disk.HasParents there := by
  cases h with
  | stay => exact hhere.hasParents
  | up => exact (hhere.of_prefix (List.dropLast_prefix here)).hasParents
  | down => exact hhere.hasParents_concat _

/-- One step cannot pass a location without being there. -/
theorem Moves.eq_or_eq_of_crossing {name : String} (h : disk.Moves here name there)
    (hcross : ¬(via <+: here ↔ via <+: there)) : via = here ∨ via = there := by
  cases h with
  | stay => exact absurd Iff.rfl hcross
  | up =>
    by_contra hne
    push Not at hne
    apply hcross
    constructor
    · -- what is strictly above stays above one level up
      intro hvia
      rcases List.eq_nil_or_concat' here with rfl | ⟨init, last, rfl⟩
      · exact hvia
      · have hinit : via <+: init := (List.prefix_concat_iff.mp hvia).resolve_left hne.1
        rwa [List.dropLast_concat]
    · intro hvia
      exact hvia.trans (List.dropLast_prefix here)
  | down =>
    by_contra hne
    push Not at hne
    apply hcross
    rw [List.prefix_concat_iff, or_iff_right hne.2]

/-! ## Whole walks -/

theorem walk_append (here : Location) (first second : List String) :
    disk.walk here (first ++ second) =
      disk.walk here first >>= fun next => disk.walk next second := by
  induction first generalizing here with
  | nil => rfl
  | cons name first ih =>
    rw [List.cons_append, walk, walk]
    rcases disk.lookup? here with _ | _ | text
    · rfl
    · dsimp only
      split
      · exact ih here
      · split
        · exact ih here.dropLast
        · split
          · exact ih (here ++ [name])
          · rfl
    · rfl

/-- A walk in two parts gets somewhere exactly if both parts do. -/
theorem walk_append_eq_ok_iff {first second : List String} :
    disk.walk here (first ++ second) = .ok there ↔
      ∃ next, disk.walk here first = .ok next ∧ disk.walk next second = .ok there := by
  rw [walk_append, bind_eq_ok_iff]

/-- Whatever a walk ends at is in directories, if its start is. -/
theorem HasParents.of_walk {steps : List String} (hparents : disk.HasParents here)
    (h : disk.walk here steps = .ok there) : disk.HasParents there := by
  induction steps generalizing here with
  | nil =>
    cases h
    exact hparents
  | cons name rest ih =>
    obtain ⟨hhere, next, hmove, hrest⟩ := walk_cons_eq_ok_iff.mp h
    exact ih (hmove.hasParents (hparents.isDirectory hhere)) hrest

/-- A walk that ends in a directory passes directories only. -/
theorem lookup?_eq_directory_of_walk {steps : List String} (h : disk.walk here steps = .ok there)
    (hthere : disk.lookup? there = some .directory) : disk.lookup? here = some .directory := by
  rcases steps with _ | ⟨name, rest⟩
  · cases h
    exact hthere
  · exact (walk_cons_eq_ok_iff.mp h).1

/-- A walk that leaves what is below a location, or enters it, passes the location. -/
theorem exists_walk_of_crossing {steps : List String} (h : disk.walk here steps = .ok there)
    (hcross : ¬(via <+: here ↔ via <+: there)) :
    ∃ before, before <+: steps ∧ disk.walk here before = .ok via := by
  induction steps generalizing here with
  | nil =>
    cases h
    exact absurd Iff.rfl hcross
  | cons name rest ih =>
    obtain ⟨hhere, next, hmove, hrest⟩ := walk_cons_eq_ok_iff.mp h
    have hstep : ∀ before, disk.walk next before = .ok via →
        disk.walk here (name :: before) = .ok via := fun before hbefore =>
      walk_cons_eq_ok_iff.mpr ⟨hhere, next, hmove, hbefore⟩
    by_cases hfirst : via <+: here ↔ via <+: next
    · -- the crossing is in the rest of the walk
      obtain ⟨before, hbefore, hvia⟩ := ih hrest fun hsame => hcross (hfirst.trans hsame)
      exact ⟨name :: before, List.cons_prefix_cons.mpr ⟨rfl, hbefore⟩, hstep before hvia⟩
    · rcases hmove.eq_or_eq_of_crossing hfirst with rfl | rfl
      · exact ⟨[], List.nil_prefix, rfl⟩
      · exact ⟨[name], List.cons_prefix_cons.mpr ⟨rfl, List.nil_prefix⟩, hstep [] rfl⟩

/-- Names lead straight down. -/
theorem eq_append_of_walk {names : List String} (hnames : ∀ name ∈ names, name ≠ "." ∧ name ≠ "..")
    (h : disk.walk here names = .ok there) : there = here ++ names := by
  induction names generalizing here with
  | nil =>
    cases h
    exact (List.append_nil _).symm
  | cons name names ih =>
    obtain ⟨-, next, hmove, hrest⟩ := walk_cons_eq_ok_iff.mp h
    have hname := hnames name List.mem_cons_self
    have hthere := ih (fun other hother => hnames other (List.mem_cons_of_mem name hother)) hrest
    cases hmove with
    | stay hdot => exact absurd hdot hname.1
    | up hup => exact absurd hup hname.2
    | down => rw [hthere, List.append_assoc, List.singleton_append]

/-- On the way to a directory lone dots make no difference. -/
theorem walk_filter_eq_ok_iff {steps : List String} (hthere : disk.lookup? there = some .directory) :
    disk.walk here (steps.filter (· ≠ ".")) = .ok there ↔ disk.walk here steps = .ok there := by
  induction steps generalizing here with
  | nil => rfl
  | cons name rest ih =>
    by_cases hdot : name = "."
    · have hdrop : (name :: rest).filter (· ≠ ".") = rest.filter (· ≠ ".") := by
        rw [List.filter_cons_of_neg (by simp [hdot])]
      rw [hdrop, ih, walk_cons_eq_ok_iff]
      constructor
      · intro h
        exact ⟨lookup?_eq_directory_of_walk h hthere, here, .stay hdot, h⟩
      · intro h
        obtain ⟨-, next, hmove, h⟩ := h
        cases hmove with
        | stay => exact h
        | up hname => simp [hname] at hdot
        | down hne => exact absurd hdot hne
    · have hkeep : (name :: rest).filter (· ≠ ".") = name :: rest.filter (· ≠ ".") := by
        rw [List.filter_cons_of_pos (by simp [hdot])]
      rw [hkeep, walk_cons_eq_ok_iff, walk_cons_eq_ok_iff]
      simp only [ih]

end Provision.Disk
