import Provision.Proofs.Host.Component

/-!
# Expanded paths

What a path of the settings is expanded to is absolute and lies under what the path is taken from:
the home directory for a tilde, the base for any other relative path. The exception is a tilde with
several separators after it: one of them goes with the tilde, so what is left is absolute and stands
for itself. An absolute path is never expanded, so expanding is done once and for all.
-/

namespace Provision

namespace HostPath

variable {base path : HostPath}

/-- A path with a separator at its end. -/
def withSeparator (path : HostPath) : HostPath :=
  if path.toList.getLast? == some '/' then path else path ++ "/"

theorem getLast?_toList_append_separator (path : HostPath) :
    (path ++ "/").toList.getLast? = some '/' := by
  rw [String.toList_append]
  exact List.getLast?_concat

theorem getLast?_toList_withSeparator (path : HostPath) :
    (withSeparator path).toList.getLast? = some '/' := by
  unfold withSeparator
  split
  · next h => exact beq_iff_eq.mp h
  · exact getLast?_toList_append_separator path

theorem ne_empty_of_isAbsolute (h : isAbsolute path = true) : path ≠ "" := by
  rintro rfl
  exact absurd h Bool.false_ne_true

/-- Joining a relative path puts it behind one separator. -/
theorem join_eq_withSeparator_append (hbase : base ≠ "") (hpath : isAbsolute path = false) :
    join base path = withSeparator base ++ path := by
  have hempty : base.toList.isEmpty = false :=
    List.isEmpty_eq_false_iff.mpr fun h => hbase (String.toList_eq_nil_iff.mp h)
  unfold join withSeparator
  rw [hpath, if_neg Bool.false_ne_true, hempty, Bool.false_or]
  split <;> rfl

end HostPath

namespace Host

open HostPath

variable (host : Host) {raw : String} {base : HostPath}

/-- Behind the tilde and a separator, a path starts at the home directory. -/
theorem expand_tilde_append (rest : String) (base : HostPath) :
    host.expand ("~/" ++ rest) base = join host.home rest := by
  have htilde : "~/".toList = ['~', '/'] := rfl
  unfold expand
  rw [String.toList_append, htilde]
  show join host.home (String.ofList rest.toList) = _
  rw [String.ofList_toList]

theorem expand_of_ne (htilde : raw ≠ "~") (hseparator : ∀ rest, raw ≠ "~/" ++ rest) :
    host.expand raw base = join base raw := by
  unfold expand
  split
  next h =>
    exact absurd (String.toList_inj.mp h) htilde
  next rest h =>
    have htext : ("~/" ++ String.ofList rest).toList = '~' :: '/' :: rest := by
      rw [String.toList_append, String.toList_ofList (l := rest)]
      rfl
    exact absurd (String.toList_inj.mp (h.trans htext.symm)) (hseparator (String.ofList rest))
  next => rfl

theorem expand_of_isAbsolute (h : isAbsolute raw = true) : host.expand raw base = raw := by
  have htilde : raw ≠ "~" := by
    rintro rfl
    exact absurd h (by decide)
  have hseparator : ∀ rest, raw ≠ "~/" ++ rest := by
    rintro rest rfl
    unfold isAbsolute at h
    rw [String.toList_append] at h
    exact Bool.false_ne_true h
  rw [host.expand_of_ne htilde hseparator, join_of_isAbsolute base h]

/-- What a path of the settings is expanded to, by how it is written. -/
structure ExpandsTo (raw : String) (base path : HostPath) : Prop where
  isAbsolute : isAbsolute path = true
  tilde : raw = "~" → path = withSeparator host.home ∧ StartsWith path host.home
  underTilde : ∀ rest, raw = "~/" ++ rest → HostPath.isAbsolute rest = false →
    path = withSeparator host.home ++ rest ∧ StartsWith path host.home
  /-- More separators after the one that belongs to the tilde leave an absolute path. -/
  beyondTilde : ∀ rest, raw = "~/" ++ rest → HostPath.isAbsolute rest = true → path = rest
  absolute : HostPath.isAbsolute raw = true → path = raw
  relative : raw ≠ "~" → (∀ rest, raw ≠ "~/" ++ rest) → HostPath.isAbsolute raw = false →
    path = withSeparator base ++ raw ∧ StartsWith path base
  /-- Expanding once more changes nothing, whatever the base. -/
  settled : ∀ other, host.expand path other = path

/-- Every path is expanded to an absolute one under its anchor, unless several separators follow its
tilde. -/
theorem expandsTo_expand (raw : String) (hhome : isAbsolute host.home = true)
    (hbase : isAbsolute base = true) : host.ExpandsTo raw base (host.expand raw base) := by
  -- what is joined to an anchor is the anchor, a separator and the rest
  have hunder : ∀ {anchor path : HostPath}, isAbsolute anchor = true → isAbsolute path = false →
      join anchor path = withSeparator anchor ++ path ∧ StartsWith (join anchor path) anchor :=
    fun hanchor hpath => ⟨join_eq_withSeparator_append (ne_empty_of_isAbsolute hanchor) hpath,
      startsWith_join _ hpath⟩
  have habsolute := isAbsolute_expand hhome hbase raw
  refine ⟨habsolute, ?_, ?_, ?_, fun h => host.expand_of_isAbsolute h, ?_,
    fun other => host.expand_of_isAbsolute habsolute⟩
  · rintro rfl
    have hhomeSeparator := @hunder host.home "" hhome rfl
    rw [String.append_empty] at hhomeSeparator
    exact hhomeSeparator
  · rintro rest rfl hrest
    rw [expand_tilde_append]
    exact hunder hhome hrest
  · rintro rest rfl hrest
    rw [expand_tilde_append]
    exact join_of_isAbsolute host.home hrest
  · intro htilde hseparator hraw
    rw [host.expand_of_ne htilde hseparator]
    exact hunder hbase hraw

/-- A host with a home directory and nothing on its disk. -/
def bare : Host := ⟨⟨[]⟩, "/home/u", [], none⟩

/-- A path below the home directory, on a host where it has no separator at its end. -/
theorem expandsTo_bare : isAbsolute bare.home = true ∧ isAbsolute "/project" = true ∧
    bare.ExpandsTo "~/code" "/project" "/home/u/code" := by
  have hpath : bare.expand "~/code" "/project" = "/home/u/code" := by decide
  refine ⟨by decide, by decide, ?_⟩
  rw [← hpath]
  exact bare.expandsTo_expand "~/code" (by decide) (by decide)

/-- With two separators after its tilde a path leads out of the home directory. -/
theorem expand_doubledSeparator : bare.expand "~//etc" "/project" = "/etc" ∧
    ¬StartsWith (bare.expand "~//etc" "/project") bare.home := by
  decide

end Host

end Provision
