import Mathlib.Data.List.Perm.Basic
import Mathlib.Data.List.Sort
import Provision.Proofs.Settings.Document
import Provision.Proofs.Settings.Law

/-!
# The canonical form of a document

Neither the order in which a record's entries stand, nor the entries that no field goes by, nor the
name that a field is called by make a difference to what is read. `Layout.canonical` sorts the
first, leaves out the second and settles the third, in every record of a document; reading a
document and reading its canonical form agree, codec by codec (`Codec.Follows`).
-/

namespace Provision

open Yaml (Node Path)
open Yaml.Reading (Agree)

namespace Layout

/-- An entry of a record by the name of the field it is for, with its value in canonical form. No
entry is left of one that no field goes by; a key that is no scalar stays as it is. -/
def canonicalEntry (field? : String → Option String) (part : String → Node → Node) :
    Node × Node → Option (Node × Node)
  | (.scalar anchor s, value) =>
    (field? s.text).map fun name => (.scalar anchor { s with text := name }, part name value)
  | entry => some entry

/-- Entries in the order of their keys. -/
def sortedByKey (before : Node → Node → Bool) (entries : List (Node × Node)) :
    List (Node × Node) :=
  entries.insertionSort fun entry entry' => before entry.1 entry'.1

/-- A node with the entries of its records in the order of their keys, and none that is not read. -/
def canonical (before : Node → Node → Bool) : Layout → Node → Node
  | .list item, .sequence anchor tag items =>
    .sequence anchor tag (items.map (canonical before item))
  | .record field? part, .mapping anchor tag entries =>
    .mapping anchor tag (sortedByKey before
      (entries.filterMap (canonicalEntry field? fun name => canonical before (part name))))
  | _, node => node

variable {before : Node → Node → Bool}

theorem perm_sortedByKey (entries : List (Node × Node)) :
    (sortedByKey before entries).Perm entries :=
  List.perm_insertionSort _ entries

section

variable {field? : String → Option String} {part : String → Node → Node} {anchor : Option ℕ}
  {s : Yaml.Scalar} {key value : Node}

/-- An entry whose key no field goes by is left out. -/
theorem canonicalEntry_of_eq_none (h : field? s.text = none) :
    canonicalEntry field? part (.scalar anchor s, value) = none := by
  simp only [canonicalEntry, h, Option.map_none]

/-- An entry for a field is put under the name of that field. -/
theorem canonicalEntry_of_eq_some {name : String} (h : field? s.text = some name) :
    canonicalEntry field? part (.scalar anchor s, value) =
      some (.scalar anchor { s with text := name }, part name value) := by
  simp only [canonicalEntry, h, Option.map_some]

/-- An entry whose key is no scalar stays as it is. -/
theorem canonicalEntry_of_key (h : ∀ anchor s, key ≠ .scalar anchor s) :
    canonicalEntry field? part (key, value) = some (key, value) := by
  unfold canonicalEntry
  split
  · next anchor s _ heq =>
    cases heq
    exact absurd rfl (h anchor s)
  · rfl

end

/-- The canonical form of a node is a node of the same kind. -/
theorem sameKind_canonical (layout : Layout) {node : Node} (h : node.SelfContained) :
    node.SameKind (layout.canonical before node) := by
  cases h with
  | scalar anchor s => cases layout <;> exact .scalar anchor s
  | sequence anchor tag _ => cases layout <;> exact .sequence anchor anchor tag tag _ _
  | mapping anchor tag _ _ => cases layout <;> exact .mapping anchor anchor tag tag _ _

/-- A list of parts without records is its own canonical form. -/
theorem canonical_list_leaf (node : Node) : canonical before (.list .leaf) node = node := by
  unfold canonical
  split
  · next heq =>
    cases heq
    exact congrArg (Node.sequence _ _) (List.map_id' _)
  · next heq => cases heq
  · rfl

end Layout

/-! ## Codecs -/

namespace Codec

variable {α : Type} {before : Node → Node → Bool}

/-- Whether a codec reads a node as it reads its canonical form, wherever the two stand. -/
def Follows (codec : Codec α) (before : Node → Node → Bool) (layout : Layout) : Prop :=
  ∀ node : Node, node.SelfContained → ∀ depth path path',
    Agree (codec.ofNode ⟨depth, path⟩ node) (codec.ofNode ⟨depth, path'⟩ (layout.canonical before node))

theorem follows_text : text.Follows before .leaf :=
  fun _ h _ => Yaml.Reading.agree_text h .text

theorem follows_scalar : scalar.Follows before .leaf :=
  fun _ h => Yaml.Reading.agree_scalarText h

theorem follows_flag : flag.Follows before .leaf :=
  fun _ h _ => Yaml.Reading.agree_flag h

theorem follows_port : port.Follows before .leaf :=
  fun _ h _ => Yaml.Reading.agree_port h

theorem follows_truth : truth.Follows before .leaf :=
  fun _ h depth path path' => (Yaml.Reading.agree_truth h depth path path').map some

theorem follows_options : options.Follows before .leaf :=
  fun _ h => Yaml.Reading.agree_options h

variable {codec : Codec α} {layout : Layout}

/-- What may be missing is read alike from both forms if what is there is. -/
theorem Follows.optional (h : codec.Follows before layout) :
    codec.optional.Follows before layout :=
  fun node hnode depth path path' =>
    Yaml.Reading.agree_optional (layout.sameKind_canonical hnode) (h node hnode depth path path')

/-- A list is read alike from both forms if its items are. -/
theorem Follows.list (h : codec.Follows before layout) :
    codec.list.Follows before (.list layout) := by
  intro node hnode depth path path'
  refine Yaml.Reading.agree_list (Layout.sameKind_canonical _ hnode) ?_
  intro anchor tag nodes anchor' tag' nodes' heq heq' depth
  subst heq
  cases heq'
  cases hnode with
  | sequence _ _ hitems =>
    exact Yaml.Reading.agree_items (fun item hitem path path' =>
      h item (hitems item hitem) depth path path') path path' 0 0

/-- A list of parts without records has none either. -/
theorem Follows.leaves (h : codec.Follows before .leaf) : codec.list.Follows before .leaf := by
  intro node hnode depth path path'
  have hlist := h.list node hnode depth path path'
  rwa [Layout.canonical_list_leaf] at hlist

theorem Follows.presentList (h : codec.Follows before .leaf) :
    codec.presentList.Follows before .leaf :=
  fun node hnode depth path path' => (h.leaves.optional node hnode depth path path').map _

end Codec

/-! ## Records -/

namespace Record

variable {σ : Type} {r : Record σ} {before : Node → Node → Bool} {part : String → Layout}

/-- An entry has the effect of its canonical form, and none if nothing is left of it. -/
theorem exists_effect (hr : r.Lawful)
    (hfields : ∀ field ∈ r.fields, field.codec.Follows before (part field.name)) {depth : ℕ}
    (path path' : Path) {entry : Node × Node} (hkey : entry.1.SelfContained)
    (hvalue : entry.2.SelfContained) :
    ∃ effect, r.HasEffect depth path entry effect ∧
      (∀ field a, effect = .setting field a → field ∈ r.fields) ∧
      ((∃ entry', Layout.canonicalEntry r.fieldName? (fun name => (part name).canonical before)
          entry = some entry' ∧ r.HasEffect depth path' entry' effect) ∨
        Layout.canonicalEntry r.fieldName? (fun name => (part name).canonical before) entry = none ∧
          effect = .nothing) := by
  obtain ⟨key, node⟩ := entry
  -- a key that is no scalar is refused in both entries
  by_cases hscalar : ∀ anchor s, key ≠ .scalar anchor s
  · exact ⟨.refusal, hasEffect_refusal_of_key hkey hscalar, by simp,
      .inl ⟨_, Layout.canonicalEntry_of_key hscalar, hasEffect_refusal_of_key hkey hscalar⟩⟩
  push Not at hscalar
  obtain ⟨anchor, s, rfl⟩ := hscalar
  cases hfind : r.fields.find? (·.goesBy s.text) with
  -- an entry of no field has no counterpart, and does nothing
  | none =>
    have hname : r.fieldName? s.text = none := by rw [fieldName?, hfind, Option.map_none]
    exact ⟨.nothing, hasEffect_nothing hfind hvalue.isCut_eq_false, by simp,
      .inr ⟨Layout.canonicalEntry_of_eq_none hname, rfl⟩⟩
  | some field =>
    have hname : r.fieldName? s.text = some field.name := by rw [fieldName?, hfind, Option.map_some]
    have hmem := List.mem_of_find?_eq_some hfind
    have hfind' := find?_name hr.distinct field hmem
    have hcanonical : Layout.canonicalEntry r.fieldName? (fun name => (part name).canonical before)
        (.scalar anchor s, node) = some _ := Layout.canonicalEntry_of_eq_some hname
    cases hfields field hmem node hvalue depth (path.under (.scalar anchor s))
      (path'.under (.scalar anchor { s with text := field.name })) with
    | @yield a h h' =>
      refine ⟨.setting field a, hasEffect_setting hfind h, fun field' a' heq => ?_,
        .inl ⟨_, hcanonical, hasEffect_setting hfind' h'⟩⟩
      cases heq
      exact hmem
    | fail h h' =>
      exact ⟨.refusal, hasEffect_refusal hfind h, by simp,
        .inl ⟨_, hcanonical, hasEffect_refusal hfind' h'⟩⟩

/-- Entries have the effects of their canonical forms, in the same order. -/
theorem exists_effects (hr : r.Lawful)
    (hfields : ∀ field ∈ r.fields, field.codec.Follows before (part field.name)) {depth : ℕ}
    (path path' : Path) {entries : List (Node × Node)}
    (hkeys : ∀ entry ∈ entries, entry.1.SelfContained)
    (hvalues : ∀ entry ∈ entries, entry.2.SelfContained) :
    ∃ effects effects', List.Forall₂ (r.HasEffect depth path) entries effects ∧
      List.Forall₂ (r.HasEffect depth path') (entries.filterMap
        (Layout.canonicalEntry r.fieldName? fun name => (part name).canonical before)) effects' ∧
      (∀ sofar, Effect.applyAll effects sofar = Effect.applyAll effects' sofar) ∧
      ∀ field a, .setting field a ∈ effects' → field ∈ r.fields := by
  induction entries with
  | nil => exact ⟨[], [], .nil, .nil, fun _ => rfl, by simp⟩
  | cons entry rest ih =>
    obtain ⟨hkey, hkeys⟩ := List.forall_mem_cons.mp hkeys
    obtain ⟨hvalue, hvalues⟩ := List.forall_mem_cons.mp hvalues
    obtain ⟨effects, effects', heffects, heffects', happly, hmem⟩ := ih hkeys hvalues
    obtain ⟨effect, heffect, hfield, hcanonical⟩ :=
      exists_effect hr hfields path path' hkey hvalue
    rcases hcanonical with ⟨entry', hentry', heffect'⟩ | ⟨hnone, rfl⟩
    · rw [List.filterMap_cons_some hentry']
      refine ⟨effect :: effects, effect :: effects', .cons heffect heffects,
        .cons heffect' heffects', fun sofar => ?_, fun field a hsetting => ?_⟩
      · rw [Effect.applyAll_cons, Effect.applyAll_cons, funext happly]
      · rcases List.mem_cons.mp hsetting with heq | hrest
        · exact hfield field a heq.symm
        · exact hmem field a hrest
    · -- an entry that does nothing may be left out
      rw [List.filterMap_cons_none hnone]
      refine ⟨.nothing :: effects, effects', .cons heffect heffects, heffects', fun sofar => ?_, hmem⟩
      rw [Effect.applyAll_cons, ← happly]
      rfl

/-- What is missing depends on which fields were set, and not on their order. -/
theorem missing?_congr {seen seen' : List String} (h : seen.Perm seen') :
    r.missing? seen = r.missing? seen' := by
  unfold missing?
  congr 2
  funext field
  rw [h.contains_eq]

/-- The record that a mapping comes to, once its entries have been read. -/
def finish (r : Record σ) (p : Progress σ) : Yaml.Reading σ :=
  match r.missing? p.seen with
  | some name => Yaml.Reading.complain (.missingField name)
  | none => return p.record

/-- Records that were read alike are complete alike. -/
theorem agree_finish {p q : Progress σ} (h : p.Same q) : Agree (r.finish p) (r.finish q) := by
  unfold finish
  rw [missing?_congr h.seen, h.record]
  split
  · exact Yaml.Reading.agree_throw _ _
  · exact Yaml.Reading.agree_pure _

/-- Two mappings whose effects come to the same are the same record, or both none. -/
theorem agree_ofEntries {depth : ℕ} {path path' : Path} {entries entries' : List (Node × Node)}
    {effects effects' : List (Effect σ)}
    (h : List.Forall₂ (r.HasEffect depth path) entries effects)
    (h' : List.Forall₂ (r.HasEffect depth path') entries' effects')
    (hsame : Option.Rel Progress.Same (Effect.applyAll effects ⟨r.blank, []⟩)
      (Effect.applyAll effects' ⟨r.blank, []⟩)) {f : Progress σ → Yaml.Reading σ}
    (hf : ∀ p q, p.Same q → Agree (f p) (f q)) :
    Agree (r.ofEntries depth path entries ⟨r.blank, []⟩ >>= f)
      (r.ofEntries depth path' entries' ⟨r.blank, []⟩ >>= f) := by
  have hread := decides_ofEntries h ⟨r.blank, []⟩
  have hread' := decides_ofEntries h' ⟨r.blank, []⟩
  generalize Effect.applyAll effects ⟨r.blank, []⟩ = result at hread hsame
  generalize Effect.applyAll effects' ⟨r.blank, []⟩ = result' at hread' hsame
  cases hsame with
  | none => exact .fail (Yaml.Reading.Fails.bind hread f) (Yaml.Reading.Fails.bind hread' f)
  | some hpq => exact Yaml.Reading.Yields.agree_bind hread hread' (hf _ _ hpq)

/-- A record is read from a mapping as it is from the canonical form. -/
theorem follows (hr : r.Lawful) (hcommutes : r.Commutes)
    (hfields : ∀ field ∈ r.fields, field.codec.Follows before (part field.name)) :
    r.codec.Follows before (.record r.fieldName? part) := by
  intro node hnode depth path path'
  refine Yaml.Reading.agree_mapping (Layout.sameKind_canonical _ hnode) (fun depth => ?_) ?_
  · exact agree_ofEntries .nil .nil (Effect.rel_refl _) fun _ _ => agree_finish
  · intro anchor tag entries anchor' tag' entries' heq heq' depth
    subst heq
    cases heq'
    cases hnode with
    | mapping _ _ hkeys hvalues =>
      obtain ⟨effects, effects', heffects, heffects', happly, hmem⟩ :=
        exists_effects hr hfields path path' hkeys hvalues
      -- the sorted entries have these effects in another order
      obtain ⟨sorted, hsorted, hperm⟩ :=
        List.perm_comp_forall₂ (Layout.perm_sortedByKey _) heffects'
      refine agree_ofEntries heffects hsorted ?_ fun _ _ => agree_finish
      rw [happly]
      exact Effect.applyAll_perm hcommutes.of_ne hperm.symm hmem _

end Record

/-! ## Settings -/

section

variable (before : Node → Node → Bool)

/-- Reading a node and reading its canonical form agree through all the ways codecs are put
together. -/
theorem Codec.law_follows : Codec.Law fun _ codec layout => codec.Follows before layout where
  text := follows_text
  scalar := follows_scalar
  flag := follows_flag
  port := follows_port
  truth := follows_truth
  options := follows_options
  optional := Follows.optional
  list := Follows.list
  leaves := Follows.leaves
  presentList := Follows.presentList
  record := Record.follows

namespace Settings

/-- Settings are read from a document as they are from its canonical form. -/
theorem follows : schema.codec.Follows before layout :=
  obeys (Codec.law_follows before)

/-- Two documents with one canonical form hold the same settings, or none. -/
theorem ofYaml_eq_of_canonical_eq {text text' : String} {root root' : Node}
    (hspells : (Yaml.Document.ofText text).Spells root)
    (hspells' : (Yaml.Document.ofText text').Spells root') (hroot : root.SelfContained)
    (hroot' : root'.SelfContained)
    (h : layout.canonical before root = layout.canonical before root') :
    (∃ s, ofYaml text = .ok s ∧ ofYaml text' = .ok s) ∨
      (∃ e, ofYaml text = .error e) ∧ ∃ e, ofYaml text' = .error e := by
  have hread := follows before root hroot 128 .root .root
  have hread' := follows before root' hroot' 128 .root .root
  rw [← h] at hread'
  cases hread.trans hread'.symm with
  | @yield s hs hs' =>
    exact .inl ⟨s, ofYaml_of_yields hspells hs, ofYaml_of_yields hspells' hs'⟩
  | fail hs hs' => exact .inr ⟨ofYaml_of_fails hspells hs, ofYaml_of_fails hspells' hs'⟩

/-- Whether a key comes before another by their texts. -/
def keyBefore : Node → Node → Bool
  | .scalar _ s, .scalar _ s' => s.text < s'.text
  | _, _ => false

/-- A document with a key that no field goes by, and the older name of another. -/
def looseDocument : String := "sites:\n- {ssl_port: 1, x: [2], map: a}\nname: b\n"

/-- The tree of `looseDocument`. -/
def looseTree : Node :=
  .mapping none none [
    (.plain "sites" none, .sequence none none [.mapping none none [
      (.plain "ssl_port" none, .plain "1" none),
      (.plain "x" none, .sequence none none [.plain "2" none]),
      (.plain "map" none, .plain "a" none)]]),
    (.plain "name" none, .plain "b" none)]

/-- A document that says the same as `looseDocument`, and nothing else. -/
def tidyDocument : String := "name: b\nsites:\n- {map: a, ssl: 1}\n"

/-- The tree of `tidyDocument`. -/
def tidyTree : Node :=
  .mapping none none [
    (.plain "name" none, .plain "b" none),
    (.plain "sites" none, .sequence none none [.mapping none none [
      (.plain "map" none, .plain "a" none), (.plain "ssl" none, .plain "1" none)]])]

/-- A document with unknown keys, an older name and another order of keys gives the settings of the
tidy one. -/
theorem ofYaml_looseDocument : ∃ s,
    (Yaml.Document.ofText looseDocument).Spells looseTree ∧
      (Yaml.Document.ofText tidyDocument).Spells tidyTree ∧ looseTree.SelfContained ∧
      tidyTree.SelfContained ∧
      layout.canonical keyBefore looseTree = layout.canonical keyBefore tidyTree ∧
      ofYaml looseDocument = .ok s ∧ ofYaml tidyDocument = .ok s := by
  have hspells := Yaml.Document.spells_of_isSpelling (by decide +kernel :
    (Yaml.Document.ofText looseDocument).isSpelling looseTree = true)
  have hspells' := Yaml.Document.spells_of_isSpelling (by decide +kernel :
    (Yaml.Document.ofText tidyDocument).isSpelling tidyTree = true)
  have hroot : looseTree.SelfContained := by
    simp [looseTree, Node.selfContained_mapping_iff, Node.selfContained_sequence_iff,
      Node.plain, Node.SelfContained.scalar]
  have hroot' : tidyTree.SelfContained := by
    simp [tidyTree, Node.selfContained_mapping_iff, Node.selfContained_sequence_iff,
      Node.plain, Node.SelfContained.scalar]
  have hcanonical : layout.canonical keyBefore looseTree = layout.canonical keyBefore tidyTree :=
    Node.eq_of_equals (by decide +kernel)
  have hread : (ofYaml tidyDocument).isOk = true := by decide +kernel
  rcases ofYaml_eq_of_canonical_eq keyBefore hspells hspells' hroot hroot' hcanonical with
    ⟨s, hs, hs'⟩ | ⟨-, e, he⟩
  · exact ⟨s, hspells, hspells', hroot, hroot', hcanonical, hs, hs'⟩
  · rw [he] at hread
    cases hread

end Settings

end

end Provision
