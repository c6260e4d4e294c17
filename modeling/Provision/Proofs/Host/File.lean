import Provision.Error
import Provision.Host.Basic
import Provision.Proofs.Attempt

/-!
# Files of a host

What the questions a run asks about one path have to do with each other. The entry a path leads to
answers all of them: it decides whether there is a regular file, and what reading it gives.
-/

namespace Provision.Host

variable {host : Host} {path : HostPath}

/-- Whether the path leads to a regular file whose bytes are not UTF-8. -/
def hasUnreadable (host : Host) (path : HostPath) : Bool :=
  host.entryAt? path = some (.file none)

/-- A path leads to a regular file exactly if the entry it leads to is one. -/
theorem hasFile_iff : host.hasFile path = true ↔ ∃ text, host.entryAt? path = some (.file text) := by
  unfold hasFile
  constructor
  · intro h
    split at h
    · next text hentry => exact ⟨text, hentry⟩
    · cases h
  · intro h
    obtain ⟨text, hentry⟩ := h
    rw [hentry]

/-- A path leads to an entry exactly if it leads to a location with this entry. -/
theorem entryAt?_eq_some_iff {entry : Entry} : host.entryAt? path = some entry ↔
    ∃ location, host.locate path = .ok location ∧ host.disk.lookup? location = some entry := by
  unfold entryAt?
  constructor
  · intro h
    split at h
    · next location hlocate => exact ⟨location, hlocate, h⟩
    · cases h
  · intro h
    obtain ⟨location, hlocate, h⟩ := h
    rw [hlocate]
    exact h

/-- Reading a regular file gives its text, unless its bytes are not UTF-8. -/
theorem readText_of_file {text : Option String} (h : host.entryAt? path = some (.file text)) :
    host.readText path = text.elim (.error .invalidData) .ok := by
  obtain ⟨location, hlocate, hfile⟩ := entryAt?_eq_some_iff.mp h
  unfold readText
  rw [hlocate, Attempt.ok_bind, hfile]
  rcases text with _ | text <;> rfl

/-- A path is read exactly if it leads to a file that has a text. -/
theorem readText_eq_ok_iff {text : String} :
    host.readText path = .ok text ↔ host.entryAt? path = some (.file (some text)) := by
  constructor
  · intro h
    obtain ⟨location, hlocate, hfile⟩ := Attempt.bind_eq_ok_iff.mp h
    refine entryAt?_eq_some_iff.mpr ⟨location, hlocate, ?_⟩
    split at hfile
    · next hentry =>
      cases hfile
      exact hentry
    · cases hfile
    · cases hfile
    · cases hfile
  · intro h
    exact readText_of_file h

/-- Reading a regular file fails only when its bytes are not UTF-8. -/
theorem mapError_readText_eq_error_iff {e : Error} (h : host.hasFile path = true) :
    (host.readText path).mapError (Error.readFailed path) = .error e ↔
      host.hasUnreadable path = true ∧ e = .readFailed path .invalidData := by
  obtain ⟨text, hentry⟩ := hasFile_iff.mp h
  rw [readText_of_file hentry, hasUnreadable, hentry]
  rcases text with _ | text
  · constructor
    · intro h
      cases h
      exact ⟨rfl, rfl⟩
    · intro h
      rw [h.2]
      rfl
  · constructor
    · intro h
      cases h
    · intro h
      cases h.1

/-- Reading a regular file gives a text exactly when the file has that text. -/
theorem mapError_readText_eq_ok_iff {text : String} (h : host.hasFile path = true) :
    (host.readText path).mapError (Error.readFailed path) = .ok text ↔
      host.entryAt? path = some (.file (some text)) := by
  obtain ⟨found, hentry⟩ := hasFile_iff.mp h
  rw [readText_of_file hentry, hentry]
  rcases found with _ | found
  · constructor
    · intro h
      cases h
    · intro h
      cases h
  · constructor
    · intro h
      cases h
      rfl
    · intro h
      cases h
      rfl

theorem hasFile_of_hasUnreadable (h : host.hasUnreadable path = true) :
    host.hasFile path = true :=
  hasFile_iff.mpr ⟨none, of_decide_eq_true h⟩

end Provision.Host
