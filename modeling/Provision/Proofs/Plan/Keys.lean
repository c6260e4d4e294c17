import Mathlib.Data.List.Find
import Provision.Plan.Keys
import Provision.Proofs.Host.File

/-!
# Planned keys

When the keys of settings can be planned, and what is planned for them. The private keys are looked
up in one pass and read in a second one, so a key that is missing is reported before any key that
cannot be read, wherever the two stand in the list.
-/

namespace Provision.Settings

open Attempt

variable {s : Settings} {host : Host} {o : PlanOptions} {e : Error}

/-! ## The public key -/

/-- The script that lets the holder of a public key log in, run by root with the key as its one
argument. -/
def authorizeShell (key : String) : Shell where
  name := none
  source := .inline ("echo $1 | grep -xq \"$1\" /home/vagrant/.ssh/authorized_keys || " ++
    "echo \"\n$1\" | tee -a /home/vagrant/.ssh/authorized_keys")
  args := [key]
  privileged := true

/-- A public key that is a regular file has the one script, if the file can be read. -/
theorem planAuthorizedKey_of_hasFile {raw : String} (hset : s.authorize = some raw)
    (hfile : host.hasFile (host.expand raw o.base) = true) :
    s.planAuthorizedKey host o =
      (host.readText (host.expand raw o.base)).mapError (.readFailed (host.expand raw o.base)) >>=
        fun key => .ok [.shell (authorizeShell key)] := by
  rw [planAuthorizedKey, hset]
  dsimp only
  rw [if_pos hfile]
  rfl

/-- Without a file there is nothing to plan for the public key. -/
theorem planAuthorizedKey_of_forall_not (h : ∀ raw ∈ s.authorize,
    host.hasFile (host.expand raw o.base) = false) : s.planAuthorizedKey host o = .ok [] := by
  rw [planAuthorizedKey]
  rcases hset : s.authorize with _ | raw
  · rfl
  · dsimp only
    rw [if_neg (Bool.not_eq_true _ ▸ h raw hset)]

/-- The public key is planned unless it is a file that cannot be read. -/
theorem planAuthorizedKey_eq_error_iff : s.planAuthorizedKey host o = .error e ↔
    ∃ raw, s.authorize = some raw ∧ host.hasUnreadable (host.expand raw o.base) = true ∧
      e = .readFailed (host.expand raw o.base) .invalidData := by
  by_cases hnone : ∀ raw ∈ s.authorize, host.hasFile (host.expand raw o.base) = false
  · rw [planAuthorizedKey_of_forall_not hnone]
    constructor
    · intro h
      cases h
    · intro h
      obtain ⟨raw, hset, hbroken, -⟩ := h
      have hmissing := hnone raw hset
      rw [Host.hasFile_of_hasUnreadable hbroken] at hmissing
      cases hmissing
  · push Not at hnone
    obtain ⟨raw, hset, hfile⟩ := hnone
    replace hfile := Bool.eq_true_of_not_eq_false hfile
    rw [planAuthorizedKey_of_hasFile hset hfile, bind_ok_eq_error_iff,
      Host.mapError_readText_eq_error_iff hfile, hset]
    simp only [Option.some.injEq, exists_eq_left']

/-! ## Looking up the private keys -/

/-- Looks up one private key. -/
def keyFile (host : Host) (o : PlanOptions) (raw : String) : Except Error (String × HostPath) :=
  if host.hasFile (host.expand raw o.base) then .ok (raw, host.expand raw o.base)
  else .error (.privateKeyNotFound (host.expand raw o.base))

/-- The files are looked up one after the other, and the first missing one ends the search. -/
theorem keyFiles_eq_mapM (keys : List String) : keyFiles host o keys = keys.mapM (keyFile host o) := by
  induction keys with
  | nil => rfl
  | cons raw keys ih =>
    rw [List.mapM_cons, ← ih, keyFiles, keyFile]
    by_cases hfile : host.hasFile (host.expand raw o.base) = true
    · rw [if_pos hfile, if_pos hfile, ok_bind]
    · rw [if_neg hfile, if_neg hfile, error_bind]

/-- A key is found exactly if its path leads to a regular file. -/
theorem isOk_keyFile (raw : String) :
    (keyFile host o raw).isOk = host.hasFile (host.expand raw o.base) := by
  unfold keyFile
  split
  · next h => exact h.symm
  · next h => exact ((Bool.not_eq_true _).mp h).symm

/-- All keys are found exactly if every path leads to a regular file. -/
theorem keyFiles_eq_ok_iff {keys : List String} {files : List (String × HostPath)} :
    keyFiles host o keys = .ok files ↔ (∀ raw ∈ keys, host.hasFile (host.expand raw o.base) = true) ∧
      keys.map (fun raw => (raw, host.expand raw o.base)) = files := by
  have hfound : ∀ raw file, keyFile host o raw = .ok file ↔
      host.hasFile (host.expand raw o.base) = true ∧ (raw, host.expand raw o.base) = file := by
    intro raw file
    unfold keyFile
    split
    · next h => exact ⟨fun hfile => ⟨h, Except.ok.inj hfile⟩, fun hfile => hfile.2 ▸ rfl⟩
    · next h => exact ⟨nofun, fun hfile => absurd hfile.1 h⟩
  simp only [keyFiles_eq_mapM, mapM_eq_ok_iff, hfound]
  rw [List.forall₂_and_left, ← List.forall₂_eq_eq_eq, List.forall₂_map_left_iff]

/-- Looking up the keys fails at the first one that is no regular file. -/
theorem keyFiles_eq_error_iff {keys : List String} : keyFiles host o keys = .error e ↔
    ∃ raw, keys.find? (fun key => !host.hasFile (host.expand key o.base)) = some raw ∧
      e = .privateKeyNotFound (host.expand raw o.base) := by
  simp only [keyFiles_eq_mapM, mapM_eq_error_iff, isOk_keyFile]
  refine exists_congr fun raw => and_congr_right fun hfirst => ?_
  have hmissing := List.find?_some hfirst
  rw [Bool.not_eq_true'] at hmissing
  rw [keyFile, if_neg (Bool.not_eq_true _ ▸ hmissing), Except.error.injEq, eq_comm]

/-! ## Reading the private keys -/

/-- The script that copies a private key into the guest, run by the login user with the key and the
name in its setting as arguments. -/
def keyShell (raw key : String) : Shell where
  name := none
  source := .inline "echo \"$1\" > /home/vagrant/.ssh/$2 && chmod 600 /home/vagrant/.ssh/$2"
  args := [key, HostPath.writtenName raw]
  privileged := false

/-- One key is planned as that script, once its file is read. -/
theorem planKeyFile_eq (raw : String) (path : HostPath) : planKeyFile host (raw, path) =
    (host.readText path).mapError (.readFailed path) >>= fun key => .ok (.shell (keyShell raw key)) :=
  rfl

/-- A key that was found is planned exactly if its file can be read. -/
theorem planKeyFile_eq_ok_iff {raw : String} {path : HostPath} {d : Directive}
    (hfile : host.hasFile path = true) : planKeyFile host (raw, path) = .ok d ↔
      ∃ key, host.entryAt? path = some (.file (some key)) ∧ d = .shell (keyShell raw key) := by
  rw [planKeyFile_eq, bind_eq_ok_iff]
  simp only [Host.mapError_readText_eq_ok_iff hfile, Except.ok.injEq, eq_comm]

/-- A key that was found fails exactly if its file cannot be read, and says so. -/
theorem planKeyFile_eq_error_iff {raw : String} {path : HostPath}
    (hfile : host.hasFile path = true) : planKeyFile host (raw, path) = .error e ↔
      host.hasUnreadable path = true ∧ e = .readFailed path .invalidData := by
  rw [planKeyFile_eq, bind_ok_eq_error_iff, Host.mapError_readText_eq_error_iff hfile]

theorem isOk_planKeyFile {raw : String} {path : HostPath} (hfile : host.hasFile path = true) :
    (planKeyFile host (raw, path)).isOk = !host.hasUnreadable path := by
  rcases hplanned : planKeyFile host (raw, path) with e | d
  · rw [((planKeyFile_eq_error_iff hfile).mp hplanned).1]
    rfl
  · obtain ⟨key, hentry, -⟩ := (planKeyFile_eq_ok_iff hfile).mp hplanned
    rw [Host.hasUnreadable, hentry]
    rfl

/-- With at least one key, all are found before the first one is read. -/
theorem planPrivateKeys_of_ne_nil {keys : List String} (hset : s.keys = some keys)
    (hkeys : keys ≠ []) :
    s.planPrivateKeys host o = keyFiles host o keys >>= List.mapM (planKeyFile host) := by
  rw [planPrivateKeys, hset]
  rcases keys with _ | ⟨raw, keys⟩
  · exact absurd rfl hkeys
  · rfl

/-- Planning keys that are all there fails at the first one that cannot be read. -/
theorem mapM_planKeyFile_eq_error_iff {keys : List String}
    (hfiles : ∀ raw ∈ keys, host.hasFile (host.expand raw o.base) = true) :
    (keys.map fun raw => (raw, host.expand raw o.base)).mapM (planKeyFile host) = .error e ↔
      ∃ raw, keys.find? (fun key => host.hasUnreadable (host.expand key o.base)) = some raw ∧
        e = .readFailed (host.expand raw o.base) .invalidData := by
  have hsame : keys.find? (fun key => !(planKeyFile host (key, host.expand key o.base)).isOk) =
      keys.find? (fun key => host.hasUnreadable (host.expand key o.base)) :=
    List.find?_congr fun key hkey => by rw [isOk_planKeyFile (hfiles key hkey), Bool.not_not]
  simp only [List.mapM_map, mapM_eq_error_iff, Function.comp_apply, hsame]
  refine exists_congr fun raw => and_congr_right fun hfirst => ?_
  have hbroken := List.find?_some hfirst
  rw [planKeyFile_eq_error_iff (hfiles raw (List.mem_of_find?_eq_some hfirst))]
  exact and_iff_right hbroken

/-- The private keys can be planned unless the list of them is empty, one of them is no regular
file or, when all are, one of them cannot be read. -/
theorem planPrivateKeys_eq_error_iff : s.planPrivateKeys host o = .error e ↔
    ∃ keys, s.keys = some keys ∧
      (keys = [] ∧ e = .noPrivateKeys ∨
        (∃ raw, keys.find? (fun key => !host.hasFile (host.expand key o.base)) = some raw ∧
          e = .privateKeyNotFound (host.expand raw o.base)) ∨
        (∀ raw ∈ keys, host.hasFile (host.expand raw o.base) = true) ∧
          ∃ raw, keys.find? (fun key => host.hasUnreadable (host.expand key o.base)) = some raw ∧
            e = .readFailed (host.expand raw o.base) .invalidData) := by
  rcases hset : s.keys with _ | keys
  · rw [planPrivateKeys, hset]
    exact ⟨nofun, nofun⟩
  simp only [Option.some.injEq, exists_eq_left']
  by_cases hkeys : keys = []
  · subst hkeys
    rw [planPrivateKeys, hset]
    constructor
    · intro h
      cases h
      exact .inl ⟨rfl, rfl⟩
    · -- nothing is found in an empty list
      intro h
      rcases h with ⟨-, rfl⟩ | ⟨raw, ⟨⟩, -⟩ | ⟨-, raw, ⟨⟩, -⟩
      rfl
  · have hnot : ¬(keys = [] ∧ e = .noPrivateKeys) := fun h => hkeys h.1
    rw [planPrivateKeys_of_ne_nil hset hkeys, bind_eq_error_iff, keyFiles_eq_error_iff,
      or_iff_right hnot]
    -- past the first pass all keys are files, which the second one needs to know
    refine or_congr_right ?_
    simp only [keyFiles_eq_ok_iff]
    constructor
    · intro h
      obtain ⟨_, ⟨hfiles, rfl⟩, h⟩ := h
      exact ⟨hfiles, (mapM_planKeyFile_eq_error_iff hfiles).mp h⟩
    · intro h
      obtain ⟨hfiles, h⟩ := h
      exact ⟨_, ⟨hfiles, rfl⟩, (mapM_planKeyFile_eq_error_iff hfiles).mpr h⟩

/-- Private keys that are planned get one directive each. -/
theorem planPrivateKeys_eq_ok_iff {planned : List Directive} :
    s.planPrivateKeys host o = .ok planned ↔ s.keys ≠ some [] ∧
      List.Forall₂ (fun raw d => ∃ key, host.entryAt? (host.expand raw o.base) =
        some (.file (some key)) ∧ d = .shell (keyShell raw key)) (s.keys.getD []) planned := by
  rcases hset : s.keys with _ | keys
  · rw [planPrivateKeys, hset, Option.getD_none, List.forall₂_nil_left_iff]
    exact ⟨fun h => ⟨nofun, (Except.ok.inj h).symm⟩, fun h => h.2 ▸ rfl⟩
  by_cases hkeys : keys = []
  · subst hkeys
    rw [planPrivateKeys, hset]
    exact ⟨nofun, fun h => absurd rfl h.1⟩
  · have hsome : some keys ≠ some [] := fun h => hkeys (Option.some.inj h)
    -- the two passes, finding all files and then reading them, can be said of each key at once
    have hplan : ∀ raw d, (host.hasFile (host.expand raw o.base) = true ∧
        planKeyFile host (raw, host.expand raw o.base) = .ok d) ↔
        ∃ key, host.entryAt? (host.expand raw o.base) = some (.file (some key)) ∧
          d = .shell (keyShell raw key) := by
      intro raw d
      constructor
      · intro h
        obtain ⟨hfile, h⟩ := h
        exact (planKeyFile_eq_ok_iff hfile).mp h
      · intro h
        obtain ⟨key, hentry, hd⟩ := h
        have hfile := Host.hasFile_iff.mpr ⟨_, hentry⟩
        exact ⟨hfile, (planKeyFile_eq_ok_iff hfile).mpr ⟨key, hentry, hd⟩⟩
    rw [planPrivateKeys_of_ne_nil hset hkeys, bind_eq_ok_iff, and_iff_right hsome, Option.getD_some]
    simp only [keyFiles_eq_ok_iff, ← hplan, List.forall₂_and_left]
    constructor
    · intro h
      obtain ⟨_, ⟨hfiles, rfl⟩, h⟩ := h
      exact ⟨hfiles, List.forall₂_map_left_iff.mp (mapM_eq_ok_iff.mp h)⟩
    · intro h
      obtain ⟨hfiles, h⟩ := h
      exact ⟨_, ⟨hfiles, rfl⟩, mapM_eq_ok_iff.mpr (List.forall₂_map_left_iff.mpr h)⟩

end Provision.Settings
