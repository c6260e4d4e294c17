import Provision.Proofs.Plan.Blocks
import Provision.Proofs.Settings.RoundTrip

/-!
# Shared folders

What is planned for the folders of settings, one after the other. A folder that is missing on the
host has a script that says so, and nothing else. One that is there is mounted with the options it
was given, and bound once more with bindfs. Where the options leave the mount options open, they end
with one option more that holds them: the folder's own, be it an empty list, or those of its type.
So a name that was there once is there once, and no other name is added to the options.
-/

namespace Provision

/-! ## Options of a mount -/

namespace Folder

/-- The mount options of a folder: its own come first, and then those of its type. -/
inductive MountsWith (folder : Folder) : List String → Prop
  | own {texts : List String} (h : folder.mountOptions = some texts) : MountsWith folder texts
  | nfs (h : folder.mountOptions = none) (hkind : folder.kind = some "nfs") :
    MountsWith folder ["actimeo=1", "nolock"]
  | smb (h : folder.mountOptions = none) (hkind : folder.kind = some "smb") :
    MountsWith folder ["vers=3.02", "mfsymlinks"]
  | other (h : folder.mountOptions = none) (hnfs : folder.kind ≠ some "nfs")
      (hsmb : folder.kind ≠ some "smb") : MountsWith folder []

/-- The options that a folder is mounted with. Those it was given stay as they are, and in front. -/
inductive SharedWith (folder : Folder) : Options → Prop
  | given (h : "mount_options" ∈ folder.options.map (·.1)) : SharedWith folder folder.options
  | extended (h : "mount_options" ∉ folder.options.map (·.1)) {texts : List String}
      (htexts : folder.MountsWith texts) :
    SharedWith folder (folder.options ++ [("mount_options", .list (texts.map .text))])

variable (folder : Folder)

/-- The mount options that are planned are those in force. -/
theorem mountsWith_effectiveMountOptions : folder.MountsWith folder.effectiveMountOptions := by
  unfold effectiveMountOptions
  split
  · next texts hown => exact .own hown
  · next hnone =>
    split
    · next hkind => exact .nfs hnone hkind
    · next hkind => exact .smb hnone hkind
    · next hnfs hsmb => exact .other hnone hnfs hsmb

/-- The search for the key finds it exactly if it is among the names of the options. -/
theorem any_mountOptionsKey_iff : folder.options.any (·.1 == mountOptionsKey) = true ↔
    "mount_options" ∈ folder.options.map (·.1) := by
  simp [List.any_eq_true, mountOptionsKey]

/-- A folder is planned with its own options, and with mount options unless it names some there. -/
theorem sharedWith_plannedOptions : folder.SharedWith folder.plannedOptions := by
  unfold plannedOptions
  by_cases hgiven : "mount_options" ∈ folder.options.map (·.1)
  · rw [if_pos (folder.any_mountOptionsKey_iff.mpr hgiven)]
    exact .given hgiven
  · rw [if_neg (mt folder.any_mountOptionsKey_iff.mp hgiven)]
    exact .extended hgiven folder.mountsWith_effectiveMountOptions

variable {folder}

/-- The mount options are only added where their name is a new one, so no name is there twice that
was there once. -/
theorem SharedWith.nodup {options : Options} (h : folder.SharedWith options)
    (hfolder : (folder.options.map (·.1)).Nodup) : (options.map (·.1)).Nodup := by
  cases h with
  | given _ => exact hfolder
  | extended hnew _ =>
    rw [List.map_append, List.map_singleton]
    refine List.nodup_append.mpr ⟨hfolder, List.pairwise_singleton _ _, ?_⟩
    intro name hname added hadded heq
    rw [heq, List.mem_singleton.mp hadded] at hname
    exact hnew hname

/-! ## The directives for a folder -/

/-- What is to be planned for a folder, down to the options of its mount. -/
inductive PlannedAs (host : Host) (o : PlanOptions) (folder : Folder) : FolderBlock → Prop
  | missing (h : host.hasEntry (host.expand folder.map o.base) = false) :
    PlannedAs host o folder (.missing ⟨none, .inline (">&2 echo \"Unable to mount one of your " ++
      "folders. Please check your folders in Homestead.yaml\""), [], true⟩)
  | shared (h : host.hasEntry (host.expand folder.map o.base) = true) {options : Options}
      (hoptions : folder.SharedWith options) :
    PlannedAs host o folder (.shared ⟨folder.map, folder.guestPath, folder.kind, options⟩
      (if o.bindfs then some ⟨folder.guestPath, folder.guestPath⟩ else none))

/-- Every folder is planned as it is to be. -/
theorem plannedAs_block (host : Host) (o : PlanOptions) (folder : Folder) :
    folder.PlannedAs host o (folder.block host o) := by
  unfold block
  by_cases hthere : host.hasEntry (host.expand folder.map o.base) = true
  · rw [if_pos hthere]
    exact .shared hthere folder.sharedWith_plannedOptions
  · rw [if_neg hthere]
    exact .missing (Bool.eq_false_of_not_eq_true hthere)

/-- The only mount in the directives for a folder is the folder's own. -/
theorem PlannedAs.sharedWith_of_mem {host : Host} {o : PlanOptions} {block : FolderBlock}
    (h : folder.PlannedAs host o block) {shared : SyncedFolder}
    (hmem : .syncedFolder shared ∈ block.directives) : folder.SharedWith shared.options := by
  cases h with
  | missing _ => simp [FolderBlock.directives] at hmem
  | shared _ hoptions =>
    rcases List.mem_cons.mp hmem with heq | hbound
    · cases heq
      exact hoptions
    · obtain ⟨_, -, heq⟩ := List.mem_map.mp hbound
      cases heq

end Folder

/-! ## The directives for all folders -/

namespace Settings

/-- Every mount among the directives is that of one of the folders. -/
theorem exists_sharedWith_of_mem {s : Settings} {host : Host} {o : PlanOptions}
    {shared : SyncedFolder} (hmem : .syncedFolder shared ∈ s.planFolders host o) :
    ∃ folder ∈ s.folders, folder.SharedWith shared.options := by
  obtain ⟨folder, hfolder, hshared⟩ := List.mem_flatMap.mp hmem
  rw [folder.plan_eq_directives] at hshared
  exact ⟨folder, hfolder, (folder.plannedAs_block host o).sharedWith_of_mem hshared⟩

/-- The folders are planned one by one in their order, each as it is there or missing. Whatever the
folders, no name is twice in the options of a mount unless a folder was given it twice, which no
document does. -/
theorem planFolders_eq_blocks (s : Settings) (host : Host) (o : PlanOptions) :
    (∃ blocks, s.planFolders host o = blocks.flatMap FolderBlock.directives ∧
      List.Forall₂ (Folder.PlannedAs host o) s.folders blocks) ∧
      ((∀ folder ∈ s.folders, (folder.options.map (·.1)).Nodup) →
        ∀ shared, .syncedFolder shared ∈ s.planFolders host o →
          (shared.options.map (·.1)).Nodup) ∧
      (s.Produced → ∀ folder ∈ s.folders, (folder.options.map (·.1)).Nodup) := by
  have hparts : ∀ folder : Folder, ∃ block : FolderBlock,
      folder.plan host o = block.directives ∧ folder.PlannedAs host o block := by
    intro folder
    exact ⟨folder.block host o, folder.plan_eq_directives host o, folder.plannedAs_block host o⟩
  refine ⟨exists_parts hparts s.folders, ?_, ?_⟩
  · intro hdistinct shared hmem
    obtain ⟨folder, hfolder, hshared⟩ := exists_sharedWith_of_mem hmem
    exact hshared.nodup (hdistinct folder hfolder)
  · intro hproduced folder hfolder
    exact (hproduced.readable.options folder hfolder).nodup

/-- A folder on the host that is mounted over the network, with an option of its own. -/
def mounted : Settings :=
  { Settings.blank with
    folders := [⟨"code", "/code", some "nfs", [("create", .bool true)], none⟩] }

/-- The mount options for `nfs` come after the folder's own option, and no name is there twice. -/
theorem planFolders_mounted : ∃ shared,
    .syncedFolder shared ∈ mounted.planFolders Host.furnished (.of "/p" "/p/scripts") ∧
      (shared.options.map (·.1)).Nodup := by
  have hmem : .syncedFolder ⟨"code", "/code", some "nfs", [("create", .bool true),
      ("mount_options", .list [.text "actimeo=1", .text "nolock"])]⟩ ∈
      mounted.planFolders Host.furnished (.of "/p" "/p/scripts") := by
    rw [mounted, planFolders, List.flatMap_singleton, Folder.plan_eq_directives]
    exact .head _
  have hdistinct : ∀ folder ∈ mounted.folders, (folder.options.map (·.1)).Nodup := by decide
  exact ⟨_, hmem, (planFolders_eq_blocks _ _ _).2.1 hdistinct _ hmem⟩

-- an option that holds nothing still keeps the mount options of the type out
example : Folder.plannedOptions ⟨"a", "/a", some "nfs", [("mount_options", .null)], none⟩ =
    [("mount_options", .null)] := rfl

end Settings

end Provision
