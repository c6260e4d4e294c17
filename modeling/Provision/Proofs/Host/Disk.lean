import Mathlib.Data.List.Infix
import Provision.Proofs.Host.File
import Provision.Proofs.Host.Path

/-!
# Locations on a disk

A path of names leads to the location with these names as soon as every location above it is a
directory, and then what is at the path is what the disk holds at the location. This holds whatever
the working directory of the host is.
-/

namespace Provision

open HostPath

namespace Disk

variable {disk : Disk}

/-- Whether every location above this one is a directory. -/
def HasParents (disk : Disk) (location : Location) : Prop :=
  ∀ above, above <+: location → above ≠ location → disk.lookup? above = some .directory

/-- Whether this location and all above it are directories. -/
def IsDirectory (disk : Disk) (location : Location) : Prop :=
  ∀ above, above <+: location → disk.lookup? above = some .directory

/-- Whether there is a regular file at a location. -/
def holdsFile (disk : Disk) (location : Location) : Bool :=
  match disk.lookup? location with
  | some (.file _) => true
  | _ => false

/-- There is a file at a location exactly if the disk has one with some text. -/
theorem holdsFile_iff {location : Location} :
    disk.holdsFile location = true ↔ ∃ text, disk.lookup? location = some (.file text) := by
  unfold holdsFile
  constructor
  · intro h
    split at h
    · next text hentry => exact ⟨text, hentry⟩
    · cases h
  · intro h
    obtain ⟨text, hentry⟩ := h
    rw [hentry]

instance (location : Location) : Decidable (disk.HasParents location) :=
  decidable_of_iff (∀ above ∈ location.inits, above ≠ location →
    disk.lookup? above = some .directory) (by simp only [List.mem_inits, HasParents])

instance (location : Location) : Decidable (disk.IsDirectory location) :=
  decidable_of_iff (∀ above ∈ location.inits, disk.lookup? above = some .directory)
    (by simp only [List.mem_inits, IsDirectory])

/-- The directories above a directory are there. -/
theorem IsDirectory.hasParents {location : Location} (h : disk.IsDirectory location) :
    disk.HasParents location :=
  fun above habove _ => h above habove

/-- What is above a directory is a directory. -/
theorem IsDirectory.of_prefix {location above : Location} (h : disk.IsDirectory location)
    (habove : above <+: location) : disk.IsDirectory above :=
  fun _ hwithin => h _ (hwithin.trans habove)

/-- What is in a directory has directories above it only. -/
theorem IsDirectory.hasParents_concat {location : Location} (h : disk.IsDirectory location)
    (name : String) : disk.HasParents (location ++ [name]) := by
  intro above habove hne
  rcases List.prefix_concat_iff.mp habove with heq | hwithin
  · exact absurd heq hne
  · exact h above hwithin

/-- Walking through directories by their names ends where the names lead, if anything is there. -/
theorem lookup?_walk {names : List String} (hnames : ∀ name ∈ names, IsName name) (here : Location)
    (habove : ∀ above, above <+: names → above ≠ names →
      disk.lookup? (here ++ above) = some .directory) :
    (disk.walk here names).toOption.bind disk.lookup? = disk.lookup? (here ++ names) := by
  induction names generalizing here with
  | nil =>
    rw [List.append_nil]
    rfl
  | cons name names ih =>
    have hhere : disk.lookup? here = some .directory := by
      have h := habove [] List.nil_prefix (List.cons_ne_nil name names).symm
      rwa [List.append_nil] at h
    obtain ⟨-, hdot, hup, -⟩ := hnames name List.mem_cons_self
    have hrest : ∀ other ∈ names, IsName other := fun other hother =>
      hnames other (List.mem_cons_of_mem name hother)
    have hstep : ∀ tail, here ++ name :: tail = here ++ [name] ++ tail := fun tail =>
      List.append_cons here name tail
    -- a name is no dot step, so the walk looks for it in the directory it is in
    rw [walk, hhere]
    dsimp only
    rw [if_neg hdot, if_neg hup]
    by_cases hsome : (disk.lookup? (here ++ [name])).isSome = true
    · rw [if_pos hsome, hstep names]
      apply ih hrest
      intro above hwithin hne
      rw [← hstep above]
      refine habove (name :: above) (List.cons_prefix_cons.mpr ⟨rfl, hwithin⟩) fun h => hne ?_
      exact (List.cons.inj h).2
    · -- nothing has the name, so it is the last one
      rw [if_neg hsome]
      rw [Bool.not_eq_true, Option.isSome_eq_false_iff, Option.isNone_iff_eq_none] at hsome
      rcases names with _ | ⟨next, names⟩
      · rw [hsome]
        rfl
      · have h := habove [name] ⟨next :: names, rfl⟩ (by simp)
        rw [hsome] at h
        cases h

end Disk

namespace Host

variable {host : Host} {location : Location}

/-- What a path leads to is what the disk has where it leads. -/
theorem entryAt?_eq_bind (host : Host) (path : HostPath) :
    host.entryAt? path = (host.locate path).toOption.bind host.disk.lookup? := by
  unfold entryAt?
  rcases host.locate path with fault | location <;> rfl

/-- The path of a location leads to what the disk holds there. -/
theorem entryAt?_pathOf (hnames : ∀ name ∈ location, IsName name)
    (hparents : host.disk.HasParents location) :
    host.entryAt? (pathOf location) = host.disk.lookup? location := by
  have hne : pathOf location ≠ "" := by
    intro h
    have habsolute := isAbsolute_pathOf location
    rw [h] at habsolute
    cases habsolute
  rw [entryAt?_eq_bind, locate, if_neg hne, if_pos (isAbsolute_pathOf location)]
  by_cases hroot : location = []
  · rw [hroot]
    rfl
  · rw [steps_pathOf hroot hnames]
    apply Disk.lookup?_walk hnames []
    intro above hwithin habove
    exact hparents above hwithin habove

/-- The path of a location leads to a file exactly if one is there. -/
theorem hasFile_pathOf (hnames : ∀ name ∈ location, IsName name)
    (hparents : host.disk.HasParents location) :
    host.hasFile (pathOf location) = host.disk.holdsFile location := by
  rw [Bool.eq_iff_iff, hasFile_iff, Disk.holdsFile_iff, entryAt?_pathOf hnames hparents]

/-- The path of a directory leads to a directory. -/
theorem hasDirectory_pathOf (hnames : ∀ name ∈ location, IsName name)
    (hdirectory : host.disk.IsDirectory location) : host.hasDirectory (pathOf location) = true := by
  unfold hasDirectory
  rw [entryAt?_pathOf hnames hdirectory.hasParents, hdirectory location (List.prefix_refl _)]
  rfl

/-- The path of a directory does not lead to a file. -/
theorem hasFile_pathOf_of_isDirectory (hnames : ∀ name ∈ location, IsName name)
    (hdirectory : host.disk.IsDirectory location) : host.hasFile (pathOf location) = false := by
  rw [hasFile_pathOf hnames hdirectory.hasParents, Disk.holdsFile,
    hdirectory location (List.prefix_refl _)]

end Host

end Provision
