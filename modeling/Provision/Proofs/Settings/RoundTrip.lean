import Provision.Proofs.Settings.LoneKey
import Provision.Settings.Defaults
import Provision.Settings.Load
import Provision.Settings.Write

/-!
# Settings written and read again

Settings that a document yields, normalized or not, come back from the document they are written
as: field for field, the order of options included (`Settings.ofYaml_toYaml`). The exception are
settings with a lone key, which have no written form.
-/

namespace Provision

/-- What a document yields has every property that its root's reading ensures in it. -/
theorem Yaml.Document.ensuresIn_run {α : Type} {document : Document} {blank : α}
    {reading : Place → Node → Reading α} {P : α → Prop} (hblank : document.root = none → P blank)
    (h : ∀ root, document.root = some root → (reading .root root).EnsuresIn document P) {a : α}
    (ha : document.run blank reading = .ok a) : P a := by
  unfold run at ha
  split at ha
  · next hroot =>
    cases ha
    exact hblank hroot
  · next root hroot =>
    split at ha
    · cases ha
    · next b count hread =>
      have hb := h root hroot 0 b count hread
      split at ha
      · cases ha
      · cases ha
      · split at ha
        · cases ha
        · cases ha
          exact hb

/-- What every reading of the root ensures holds of what a document gives. -/
theorem Yaml.Document.ensures_run {α : Type} {document : Document} {blank : α}
    {reading : Place → Node → Reading α} {P : α → Prop} (hblank : P blank)
    (h : ∀ node, (reading .root node).Ensures P) {a : α}
    (ha : document.run blank reading = .ok a) : P a :=
  ensuresIn_run (fun _ => hblank) (fun root _ => (h root).within document) ha

/-- A document with one root that stands to its end yields what the root's reading does. -/
theorem Yaml.Document.run_of_yields {α : Type} {document : Document} {blank : α}
    {reading : Place → Node → Reading α} {root : Node} (hroot : document.root = some root)
    (hunbroken : document.brokenBy = none) (hsingle : document.hasMore = false) {a : α}
    (h : (reading .root root).Yields a) : document.run blank reading = .ok a := by
  unfold run
  rw [hroot]
  dsimp only
  rw [h document 0]
  dsimp only
  rw [hunbroken, hsingle]
  rfl

/-- What reading the root ensures holds of what a document gives. -/
theorem Json.Document.ensures_run {α : Type} {document : Document}
    {reading : ℕ → Source → Reading α} {P : α → Prop}
    (h : (reading depthLimit document.root).Ensures P) {a : α}
    (ha : document.run reading = .ok a) : P a := by
  unfold run at ha
  split at ha
  · cases ha
  · next b hread =>
    split at ha
    · cases ha
    · cases ha
      exact h _ hread

namespace Settings

/-! ## Settings from documents -/

/-- The settings that a document of either format yields, and those that normalizing makes of
them. -/
inductive Produced : Settings → Prop
  | yaml {text : String} {s : Settings} (h : ofYaml text = .ok s) : Produced s
  | json {text : String} {s : Settings} (h : ofJson text = .ok s) : Produced s
  | normalized {s : Settings} (h : Produced s) (defaults : Defaults) :
    Produced (s.normalizedWith defaults)

theorem eq_ok_of_mapError {ε δ α : Type} {f : ε → δ} {result : Except ε α} {a : α}
    (h : result.mapError f = .ok a) : result = .ok a := by
  cases result with
  | error e => cases h
  | ok b => exact congrArg Except.ok (Except.ok.inj h)

theorem readable_blank (depth : ℕ) : blank.Readable depth := ⟨rfl, by simp [blank]⟩

/-- Settings from a YAML document can be read again once they are written. -/
theorem readable_of_ofYaml {text : String} {s : Settings} (h : ofYaml text = .ok s) :
    s.Readable 124 :=
  Yaml.Document.ensures_run (readable_blank 124) ((gives 124).ofNode .root) (eq_ok_of_mapError h)

/-- Settings from a JSON document can be read again once they are written. -/
theorem readable_of_ofJson {text : String} {s : Settings} (h : ofJson text = .ok s) :
    s.Readable 124 := by
  have hs : s.Readable 123 := Json.Document.ensures_run
    ((gives 123).ofSource _ (Json.bounded_root text)) (eq_ok_of_mapError h)
  exact ⟨hs.sourcePath, fun folder hfolder => (hs.options folder hfolder).mono (by omega)⟩

/-- All that is produced is readable. -/
theorem Produced.readable {s : Settings} (h : s.Produced) : s.Readable 124 := by
  induction h with
  | yaml h => exact readable_of_ofYaml h
  | json h => exact readable_of_ofJson h
  | normalized _ defaults ih => exact ⟨ih.sourcePath, ih.options⟩

/-! ## The round trip -/

/-- The root of the document that settings are written as, if they have a written form. -/
def node? (s : Settings) : Option Yaml.Node :=
  Yaml.Node.ofValue? none (schema.toValue s)

/-- Produced settings have a written form exactly when they have no lone key, and are read back
from it wherever printing and scanning reproduce its nodes. -/
theorem ofYaml_toYaml {s : Settings} (h : s.Produced) :
    (s.hasLoneKey = true → s.toYaml = .error (.invalidYaml .unwritable)) ∧
    (s.hasLoneKey = false → ∃ root, s.node? = some root ∧ s.toYaml = .ok root.toText ∧
      (root.Reproduced → ofYaml root.toText = .ok s)) := by
  -- from the root of a document collections nest up to 128 deep
  have hrestores : schema.codec.Restores 128 s := restores h.readable
  have hsome : s.node?.isSome = !s.hasLoneKey := by
    rw [← hasLoneKey_toValue]
    exact Yaml.Node.ofValue?_isSome hrestores.readable none (by simp)
  constructor
  · intro hlone
    have hnone : Yaml.Node.ofValue? none (schema.toValue s) = none := by
      rw [hlone] at hsome
      exact Option.isSome_eq_false_iff.mp hsome |> Option.isNone_iff_eq_none.mp
    unfold toYaml Yaml.textOfValue
    rw [hnone]
    rfl
  · intro hlone
    rw [hlone] at hsome
    obtain ⟨root, hroot⟩ := Option.isSome_iff_exists.mp hsome
    have hofValue : Yaml.Node.ofValue? none (schema.toValue s) = some root := hroot
    refine ⟨root, hroot, ?_, fun hreproduced => ?_⟩
    · unfold toYaml Yaml.textOfValue
      rw [hofValue]
      rfl
    · have hrun : (Yaml.Document.ofText root.toText).run blank schema.ofNode = .ok s :=
        Yaml.Document.run_of_yields hreproduced.root_eq hreproduced.unbroken hreproduced.single
          (hrestores.yields root hofValue .root)
      unfold ofYaml
      rw [hrun]
      rfl

/-- A document with an option whose value is a table with a tagged key and nothing else. -/
def taggedKeyDocument : String :=
  "folders:\n- map: a\n  to: b\n  options:\n    k:\n      !t x: y\n"

/-- Settings are not always written: those of `taggedKeyDocument` are read, and have no form. -/
theorem toYaml_taggedKeyDocument :
    ∃ s, ofYaml taggedKeyDocument = .ok s ∧ ∀ text, s.toYaml ≠ .ok text := by
  have hcheck : (ofYaml taggedKeyDocument).toOption.any
      (fun s => s.toYaml.toOption.isNone) = true := by
    decide +kernel
  generalize taggedKeyDocument = text at hcheck
  cases hs : ofYaml text with
  | error e => rw [hs] at hcheck; cases hcheck
  | ok s =>
    refine ⟨s, rfl, fun text htext => ?_⟩
    rw [hs] at hcheck
    have hnone : s.toYaml.toOption.isNone = true := hcheck
    rw [htext] at hnone
    cases hnone

/-- A document with a list of keys that is empty, and texts that look like a number and null. -/
def variedDocument : String :=
  "keys: []\nmemory: '1'\nfolders:\n- map: a\n  to: b\n  options:\n    n: [~, '~']\n"

/-- `variedDocument` is written and read back, `taggedKeyDocument` is not written. -/
theorem ofYaml_toYaml_documents :
    (∃ s root, ofYaml variedDocument = .ok s ∧ s.hasLoneKey = false ∧ root.Reproduced ∧
      s.node? = some root ∧ s.toYaml = .ok root.toText ∧ ofYaml root.toText = .ok s) ∧
    ∃ s, ofYaml taggedKeyDocument = .ok s ∧ s.hasLoneKey = true ∧
      s.toYaml = .error (.invalidYaml .unwritable) := by
  constructor
  · have hcheck : (ofYaml variedDocument).toOption.any
        (fun s => !s.hasLoneKey && s.node?.any Yaml.Node.isReproduced) = true := by
      decide +kernel
    -- from here on the text is a name, so that nothing reads it a second time
    generalize variedDocument = text at hcheck
    cases hs : ofYaml text with
    | error e => rw [hs] at hcheck; cases hcheck
    | ok s =>
      rw [hs] at hcheck
      have hparts : (!s.hasLoneKey && s.node?.any Yaml.Node.isReproduced) = true := hcheck
      obtain ⟨hlone, hroot⟩ := Bool.and_eq_true_iff.mp hparts
      rw [Bool.not_eq_true'] at hlone
      obtain ⟨root, hnode, hyaml, hread⟩ := (ofYaml_toYaml (.yaml hs)).2 hlone
      rw [hnode, Option.any_some] at hroot
      have hreproduced := Yaml.Node.reproduced_of_isReproduced hroot
      exact ⟨s, root, rfl, hlone, hreproduced, hnode, hyaml, hread hreproduced⟩
  · have hcheck : (ofYaml taggedKeyDocument).toOption.any Settings.hasLoneKey = true := by
      decide +kernel
    generalize taggedKeyDocument = text at hcheck
    cases hs : ofYaml text with
    | error e => rw [hs] at hcheck; cases hcheck
    | ok s =>
      rw [hs] at hcheck
      have hlone : s.hasLoneKey = true := hcheck
      exact ⟨s, rfl, hlone, (ofYaml_toYaml (.yaml hs)).1 hlone⟩

end Settings

end Provision
