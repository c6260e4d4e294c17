import Provision.Proofs.Settings.RoundTrip
import Provision.Proofs.Yaml.Agreement

/-!
# Documents that are one tree

A text that is scanned without a fault spells a tree, unless it is a stream without documents. What
settings it holds is then decided by reading that tree.
-/

namespace Provision

/-- Whether a document is a tree and nothing else. -/
structure Yaml.Document.Spells (document : Document) (root : Node) : Prop where
  root_eq : document.root = some root
  unbroken : document.brokenBy = none
  single : document.hasMore = false

/-- Whether a document is this tree and nothing else, to be computed. -/
def Yaml.Document.isSpelling (document : Document) (root : Node) : Bool :=
  document.root.any (·.equals root) && document.brokenBy.isNone && !document.hasMore

/-- Whether a document spells a tree can be computed. -/
theorem Yaml.Document.spells_of_isSpelling {document : Document} {root : Node}
    (h : document.isSpelling root = true) : document.Spells root := by
  simp only [isSpelling, Bool.and_eq_true, Bool.not_eq_true'] at h
  obtain ⟨⟨hroot, hunbroken⟩, hsingle⟩ := h
  refine ⟨?_, Option.isNone_iff_eq_none.mp hunbroken, hsingle⟩
  cases hfound : document.root with
  | none => rw [hfound] at hroot; cases hroot
  | some found =>
    rw [hfound] at hroot
    rw [Node.eq_of_equals hroot]

namespace Settings

variable {text : String} {root : Yaml.Node}

/-- What the tree of a document yields are the settings of its text. -/
theorem ofYaml_of_yields (h : (Yaml.Document.ofText text).Spells root) {s : Settings}
    (hs : (schema.codec.ofNode .root root).Yields s) : ofYaml text = .ok s := by
  have hrun : (Yaml.Document.ofText text).run blank schema.ofNode = .ok s :=
    Yaml.Document.run_of_yields h.root_eq h.unbroken h.single hs
  unfold ofYaml
  rw [hrun]
  rfl

/-- Where reading the tree fails, so does reading the text. -/
theorem ofYaml_of_fails (h : (Yaml.Document.ofText text).Spells root)
    (hroot : (schema.codec.ofNode .root root).Fails) : ∃ e, ofYaml text = .error e := by
  obtain ⟨fault, hfault⟩ := hroot (Yaml.Document.ofText text) 0
  have hrun : (Yaml.Document.ofText text).run blank schema.ofNode = .error fault := by
    unfold Yaml.Document.run
    rw [h.root_eq]
    dsimp only
    rw [show schema.ofNode .root root _ 0 = .error fault from hfault]
  unfold ofYaml
  rw [hrun]
  exact ⟨_, rfl⟩

end Settings

end Provision
