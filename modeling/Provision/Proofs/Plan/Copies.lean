import Provision.Proofs.Host.Expansion
import Provision.Proofs.Host.LastName
import Provision.Proofs.Plan.Blocks

/-!
# Copied files

Every file that is copied into the guest goes into the directory it is given, under the name it is
written with on the host. A directory may be given with a separator at its end; this one does not
count, but one more would stay. Whatever the name, it is the last segment of the guest path, also
when it is empty because nothing but separators was written. So files that are copied into one
directory overwrite each other exactly if they are written with one name.
-/

namespace Provision

open HostPath

namespace FileCopy

/-- Where a name is put in a directory. A separator at the end of the directory is taken away, and
one is put between the two. -/
inductive PlacedIn (name : String) : String → String → Prop
  | closed (directory : String) : PlacedIn name (directory ++ "/") (directory ++ "/" ++ name)
  | bare {directory : String} (h : directory.toList.getLast? ≠ some '/') :
    PlacedIn name directory (directory ++ "/" ++ name)

/-- What is to be uploaded for a copy, and the last segment of where it goes. -/
structure UploadedAs (host : Host) (o : PlanOptions) (copy : FileCopy) (upload : Upload) : Prop where
  source : upload.source = host.expand copy.source o.base
  destination : PlacedIn (writtenName copy.source) copy.directory upload.destination
  lastSegment : (segments upload.destination.toList).getLast? =
    some (writtenName copy.source).toList
  /-- The guest path is written with the name again, unless there is none. -/
  name : writtenName copy.source ≠ "" → writtenName upload.destination = writtenName copy.source

variable {name directory destination : String}

/-- Both ways of giving the directory come to the same text before the name. -/
theorem PlacedIn.eq_append (h : PlacedIn name directory destination) :
    destination = withSeparator directory ++ name := by
  unfold withSeparator
  cases h with
  | closed directory => rw [getLast?_toList_append_separator, if_pos (beq_self_eq_true _)]
  | bare h => rw [if_neg (mt beq_iff_eq.mp h)]

/-- Names put in one directory meet only if they are the same. -/
theorem PlacedIn.eq_iff {other otherDestination : String}
    (h : PlacedIn name directory destination) (hother : PlacedIn other directory otherDestination) :
    destination = otherDestination ↔ name = other := by
  rw [h.eq_append, hother.eq_append]
  exact String.append_right_inj _

/-- The last part of the destination is the name. -/
theorem PlacedIn.getLast?_segments (h : PlacedIn name directory destination)
    (hname : '/' ∉ name.toList) : (segments destination.toList).getLast? = some name.toList := by
  rw [h.eq_append]
  exact getLast?_segments_append hname (.inr (getLast?_toList_withSeparator directory))

/-- The destination planned for a copy is its written name, placed in its directory. -/
theorem placedIn_destination (copy : FileCopy) :
    PlacedIn (writtenName copy.source) copy.directory copy.destination := by
  unfold destination
  dsimp only
  split
  · next rest hrest =>
    have hdirectory : copy.directory = String.ofList rest.reverse ++ "/" := by
      rw [← String.toList_inj, String.toList_append, String.toList_ofList,
        ← List.reverse_reverse copy.directory.toList, hrest]
      exact List.reverse_cons
    rw [hdirectory]
    exact .closed _
  · next hrest =>
    -- a separator at the end would come first backwards
    refine .bare fun hlast => ?_
    obtain ⟨front, hfront⟩ := List.getLast?_eq_some_iff.mp hlast
    rw [hfront, List.reverse_concat] at hrest
    exact hrest _ rfl

/-- A copy is uploaded from its expanded source to its destination. -/
theorem uploadedAs_destination (host : Host) (o : PlanOptions) (copy : FileCopy) :
    copy.UploadedAs host o ⟨host.expand copy.source o.base, copy.destination⟩ := by
  have hplaced := copy.placedIn_destination
  have hlast := hplaced.getLast?_segments (isWrittenWith_writtenName copy.source).not_mem
  exact ⟨rfl, hplaced, hlast, writtenName_eq_of_getLast? hlast⟩

end FileCopy

namespace Settings

/-- Every copy is planned as the upload of its file into its directory, under the one name that the
file is written with, so two copies into one directory meet exactly if their files are written with
the same name. -/
theorem planCopies_eq_uploads (s : Settings) (host : Host) (o : PlanOptions) :
    (∀ raw name, IsWrittenWith raw name ↔ name = writtenName raw) ∧
      ∃ uploads, s.planCopies host o = uploads.map .file ∧
        List.Forall₂ (FileCopy.UploadedAs host o) s.copies uploads ∧
        ∀ one ∈ s.copies.zip uploads, ∀ other ∈ s.copies.zip uploads,
          one.1.directory = other.1.directory →
            (one.2.destination = other.2.destination ↔
              writtenName one.1.source = writtenName other.1.source) := by
  have huploads : List.Forall₂ (FileCopy.UploadedAs host o) s.copies
      (s.copies.map fun copy => ⟨host.expand copy.source o.base, copy.destination⟩) := by
    rw [List.forall₂_map_right_iff, List.forall₂_same]
    exact fun copy _ => copy.uploadedAs_destination host o
  refine ⟨fun raw name => isWrittenWith_iff, _, (List.map_map ..).symm, huploads, ?_⟩
  intro one hone other hother hdirectory
  have hplaced := (List.forall₂_zip huploads hone).destination
  rw [hdirectory] at hplaced
  exact hplaced.eq_iff (List.forall₂_zip huploads hother).destination

/-- Settings that copy two files of one name, and the root of the host, into one directory. -/
def dotfiles : Settings :=
  { Settings.blank with
    copies := [⟨"dotfiles//.gitconfig/", "/etc//"⟩, ⟨"~/.gitconfig", "/etc//"⟩, ⟨"//", "/etc//"⟩] }

/-- The two files of one name meet in the guest, and the root stays away from them. -/
theorem planCopies_dotfiles : ∃ uploads first second root,
    dotfiles.planCopies Host.bare (.of "/project" "/project/scripts") = uploads.map .file ∧
      dotfiles.copies.zip uploads = [first, second, root] ∧
      first.1.directory = second.1.directory ∧ first.1.directory = root.1.directory ∧
      first.2.source ≠ second.2.source ∧ first.2.destination = "/etc//.gitconfig" ∧
      first.2.destination = second.2.destination ∧ first.2.destination ≠ root.2.destination := by
  obtain ⟨-, uploads, hplanned, -, hmeet⟩ :=
    planCopies_eq_uploads dotfiles Host.bare (.of "/project" "/project/scripts")
  obtain rfl : uploads = [⟨"/project/dotfiles//.gitconfig/", "/etc//.gitconfig"⟩,
      ⟨"/home/u/.gitconfig", "/etc//.gitconfig"⟩, ⟨"//", "/etc//"⟩] :=
    List.map_injective_iff.mpr (fun _ _ => Directive.file.inj) (hplanned.symm.trans rfl)
  refine ⟨_, _, _, _, hplanned, rfl, rfl, rfl, by decide, rfl, ?_, ?_⟩
  · exact (hmeet _ (.head _) _ (.tail _ (.head _)) rfl).mpr (by decide)
  · exact (hmeet _ (.head _) _ (.tail _ (.tail _ (.head _))) rfl).not.mpr (by decide)

-- without a name the path ends in a separator, even where the directory was given with one
example : FileCopy.destination ⟨"//", "/etc/"⟩ = "/etc/" := by decide

end Settings

end Provision
