import Provision.Proofs.Settings.Codec
import Provision.Proofs.Yaml.Agreement

/-!
# What entries do to a record

Reading a mapping as a record applies the effects of its entries one after the other: an entry sets
a field, does nothing, or has the mapping refused, and so does one that sets a field again. Since
fields are set independently of each other, the order of the effects does not matter
(`applyAll_perm`).
-/

namespace Provision

open Yaml (Node Path)
open Yaml.Reading (Yields Fails Decides)

/-- Whether two fields can be set in either order. -/
def Field.Commutes {σ : Type} (field other : Field σ) : Prop :=
  ∀ a b record, field.put a (other.put b record) = other.put b (field.put a record)

namespace Record

variable {σ : Type}

/-- What an entry does to the record it is read for. -/
inductive Effect (σ : Type)
  | refusal
  | nothing
  | setting (field : Field σ) (a : field.α)

/-- The record after an effect, unless it is refused. No field is set twice. -/
def Effect.apply (sofar : Progress σ) : Effect σ → Option (Progress σ)
  | refusal => none
  | nothing => some sofar
  | setting field a =>
    if field.name ∈ sofar.seen then none
    else some ⟨field.put a sofar.record, field.name :: sofar.seen⟩

/-- The record after effects in order. -/
def Effect.applyAll (effects : List (Effect σ)) (sofar : Progress σ) : Option (Progress σ) :=
  effects.foldlM apply sofar

/-! ## The order of effects -/

/-- Whether the same was read, in any order. -/
structure Progress.Same (p q : Progress σ) : Prop where
  record : p.record = q.record
  seen : p.seen.Perm q.seen

theorem Progress.Same.refl (p : Progress σ) : p.Same p := ⟨rfl, .refl _⟩

theorem Progress.Same.trans {p q t : Progress σ} (h : p.Same q) (h' : q.Same t) : p.Same t :=
  ⟨h.record.trans h'.record, h.seen.trans h'.seen⟩

namespace Effect

open Progress (Same)

/-- A result of effects is the same as itself. -/
theorem rel_refl (result : Option (Progress σ)) : Option.Rel Same result result := by
  cases result with
  | none => exact .none
  | some p => exact .some (.refl p)

/-- Results that are the same as a third one are the same. -/
theorem rel_trans {first second third : Option (Progress σ)} (h : Option.Rel Same first second)
    (h' : Option.Rel Same second third) : Option.Rel Same first third := by
  cases h with
  | none => exact h'
  | some h =>
    cases h' with
    | some h' => exact .some (h.trans h')

theorem apply_setting_of_mem {field : Field σ} {a : field.α} {sofar : Progress σ}
    (h : field.name ∈ sofar.seen) : (setting field a).apply sofar = none :=
  if_pos h

/-- A field that was not seen is set and is seen from then on. -/
theorem apply_setting_of_not_mem {field : Field σ} {a : field.α} {sofar : Progress σ}
    (h : field.name ∉ sofar.seen) :
    (setting field a).apply sofar = some ⟨field.put a sofar.record, field.name :: sofar.seen⟩ :=
  if_neg h

/-- An effect does the same to records in which the same fields were seen. -/
theorem apply_congr (effect : Effect σ) {p q : Progress σ} (h : p.Same q) :
    Option.Rel Same (effect.apply p) (effect.apply q) := by
  cases effect with
  | refusal => exact .none
  | nothing => exact .some h
  | setting field a =>
    by_cases hmem : field.name ∈ p.seen
    · rw [apply_setting_of_mem hmem, apply_setting_of_mem (h.seen.mem_iff.mp hmem)]
      exact .none
    · rw [apply_setting_of_not_mem hmem, apply_setting_of_not_mem (mt h.seen.mem_iff.mpr hmem)]
      exact .some ⟨congrArg (field.put a) h.record, h.seen.cons field.name⟩

/-- Nothing is left of a record once an entry is refused. -/
theorem bind_refusal (result : Option (Progress σ)) : result.bind refusal.apply = none := by
  cases result with
  | none => rfl
  | some p => rfl

/-- An entry without effect changes nothing. -/
theorem bind_nothing (result : Option (Progress σ)) : result.bind nothing.apply = result := by
  cases result with
  | none => rfl
  | some p => rfl

/-- A field set before another, and both not yet. -/
theorem bind_setting {field other : Field σ} {a : field.α} {b : other.α} {sofar : Progress σ}
    (hfield : field.name ∉ sofar.seen) (hother : other.name ∉ sofar.seen)
    (hne : field.name ≠ other.name) :
    ((setting field a).apply sofar).bind (setting other b).apply =
      some ⟨other.put b (field.put a sofar.record), other.name :: field.name :: sofar.seen⟩ := by
  rw [apply_setting_of_not_mem hfield, Option.bind_some]
  exact apply_setting_of_not_mem fun hmem => (List.mem_cons.mp hmem).elim (Ne.symm hne) hother

/-- A field set before another is refused if one of the two was set already, or if they are one. -/
theorem bind_setting_eq_none {field other : Field σ} {a : field.α} {b : other.α}
    {sofar : Progress σ}
    (h : field.name ∈ sofar.seen ∨ other.name ∈ sofar.seen ∨ other.name = field.name) :
    ((setting field a).apply sofar).bind (setting other b).apply = none := by
  by_cases hfield : field.name ∈ sofar.seen
  · rw [apply_setting_of_mem hfield, Option.bind_none]
  · rw [apply_setting_of_not_mem hfield, Option.bind_some]
    have hmem : other.name ∈ field.name :: sofar.seen :=
      List.mem_cons.mpr ((h.resolve_left hfield).symm)
    exact apply_setting_of_mem hmem

/-- Two effects come to the same in either order, if the fields they set do. -/
theorem apply_swap {effect other : Effect σ}
    (h : ∀ field a field' b, effect = setting field a → other = setting field' b →
      field.name ≠ field'.name → field.Commutes field') (sofar : Progress σ) :
    Option.Rel Same ((effect.apply sofar).bind other.apply)
      ((other.apply sofar).bind effect.apply) := by
  cases effect with
  | refusal =>
    rw [bind_refusal]
    exact .none
  | nothing =>
    rw [bind_nothing]
    exact rel_refl _
  | setting field a =>
    cases other with
    | refusal =>
      rw [bind_refusal]
      exact .none
    | nothing =>
      rw [bind_nothing]
      exact rel_refl _
    | setting field' b =>
      -- if one of the two fields was given, or both are the same, either order is refused
      by_cases hrefused : field.name ∈ sofar.seen ∨ field'.name ∈ sofar.seen ∨
          field'.name = field.name
      · rw [bind_setting_eq_none hrefused, bind_setting_eq_none (by tauto)]
        exact .none
      · push Not at hrefused
        obtain ⟨hfield, hfield', hne⟩ := hrefused
        rw [bind_setting hfield hfield' hne.symm, bind_setting hfield' hfield hne]
        exact .some ⟨(h field a field' b rfl rfl hne.symm a b sofar.record).symm, .swap _ _ _⟩

/-! ### Effects in a row -/

/-- Effects take place one after the other. -/
theorem applyAll_cons (effect : Effect σ) (effects : List (Effect σ)) (sofar : Progress σ) :
    applyAll (effect :: effects) sofar = (effect.apply sofar).bind (applyAll effects) :=
  List.foldlM_cons

theorem rel_bind {first second : Option (Progress σ)} {f g : Progress σ → Option (Progress σ)}
    (h : Option.Rel Same first second) (hfg : ∀ p q, p.Same q → Option.Rel Same (f p) (g q)) :
    Option.Rel Same (first.bind f) (second.bind g) := by
  cases h with
  | none => exact .none
  | some h => exact hfg _ _ h

/-- Effects do the same to records in which the same fields were seen. -/
theorem applyAll_congr (effects : List (Effect σ)) {p q : Progress σ} (h : p.Same q) :
    Option.Rel Same (applyAll effects p) (applyAll effects q) := by
  induction effects generalizing p q with
  | nil => exact .some h
  | cons effect rest ih =>
    rw [applyAll_cons, applyAll_cons]
    exact rel_bind (effect.apply_congr h) fun p q => ih

/-- Effects come to the same in any order, if the fields they set are set independently. -/
theorem applyAll_perm {fields : List (Field σ)}
    (hfields : ∀ field ∈ fields, ∀ other ∈ fields, field.name ≠ other.name → field.Commutes other)
    {effects effects' : List (Effect σ)} (hperm : effects.Perm effects')
    (heffects : ∀ field a, setting field a ∈ effects → field ∈ fields) (sofar : Progress σ) :
    Option.Rel Same (applyAll effects sofar) (applyAll effects' sofar) := by
  induction hperm generalizing sofar with
  | nil => exact rel_refl _
  | cons effect hperm ih =>
    rw [applyAll_cons, applyAll_cons]
    refine rel_bind (rel_refl _) fun p q hsame => ?_
    have hrest := ih (fun field a hmem => heffects field a (List.mem_cons_of_mem _ hmem)) p
    exact rel_trans hrest (applyAll_congr _ hsame)
  | swap effect other rest =>
    have hswap : Option.Rel Same ((other.apply sofar).bind effect.apply)
        ((effect.apply sofar).bind other.apply) :=
      apply_swap (fun field a field' b hfield hfield' =>
        hfields field (heffects field a (by simp [hfield])) field'
          (heffects field' b (by simp [hfield']))) sofar
    have hrest := rel_bind hswap fun p q hsame => applyAll_congr rest hsame
    rw [Option.bind_assoc, Option.bind_assoc] at hrest
    simpa only [applyAll_cons] using hrest
  | trans hfirst hsecond ihfirst ihsecond =>
    refine rel_trans (ihfirst heffects sofar) (ihsecond (fun field a hmem => ?_) sofar)
    exact heffects field a (hfirst.mem_iff.mpr hmem)

end Effect

/-! ## Entries -/

open Effect (applyAll)

variable {r : Record σ} {depth : ℕ} {path : Path}

/-- Whether reading an entry has an effect, whatever was read before it. -/
def HasEffect (r : Record σ) (depth : ℕ) (path : Path) (entry : Node × Node)
    (effect : Effect σ) : Prop :=
  ∀ sofar, Decides (r.ofEntries depth path [entry] sofar) (effect.apply sofar)

theorem ofEntries_cons (entry : Node × Node) (rest : List (Node × Node)) (sofar : Progress σ) :
    r.ofEntries depth path (entry :: rest) sofar =
      r.ofEntries depth path [entry] sofar >>= r.ofEntries depth path rest := by
  obtain ⟨keyNode, node⟩ := entry
  simp only [ofEntries, bind_assoc]
  refine bind_congr fun key => ?_
  split
  · rw [bind_assoc]
    exact bind_congr fun _ => (pure_bind _ _).symm
  · split
    · simp only [bind_assoc, pure_bind]
    · simp only [bind_assoc, pure_bind]

/-- Entries are read with their effects in order. -/
theorem decides_ofEntries {entries : List (Node × Node)} {effects : List (Effect σ)}
    (h : List.Forall₂ (r.HasEffect depth path) entries effects) (sofar : Progress σ) :
    Decides (r.ofEntries depth path entries sofar) (applyAll effects sofar) := by
  induction h generalizing sofar with
  | nil => exact Yaml.Reading.yields_pure sofar
  | cons hentry _ ih =>
    rw [ofEntries_cons, Effect.applyAll_cons]
    exact (hentry sofar).bind ih

section

variable {anchor : Option ℕ} {s : Yaml.Scalar} {node : Node} {field : Field σ}

/-- An entry whose key no field goes by has no effect. -/
theorem hasEffect_nothing (hkey : r.fields.find? (·.goesBy s.text) = none)
    (hnode : node.isCut = false) : r.HasEffect depth path (.scalar anchor s, node) .nothing := by
  intro sofar
  refine (Yaml.Reading.yields_text_scalar _ path anchor s).bind ?_
  rw [hkey]
  unfold Yaml.Reading.skip
  rw [hnode]
  exact Yields.bind (Yaml.Reading.yields_pure ()) (Yaml.Reading.yields_pure sofar)

/-- An entry for a field sets it to what its value is read as. -/
theorem hasEffect_setting (hkey : r.fields.find? (·.goesBy s.text) = some field) {a : field.α}
    (hread : Yields (field.codec.ofNode ⟨depth, path.under (.scalar anchor s)⟩ node) a) :
    r.HasEffect depth path (.scalar anchor s, node) (.setting field a) := by
  intro sofar
  refine (Yaml.Reading.yields_text_scalar _ path anchor s).bind_decides ?_
  rw [hkey]
  dsimp only
  by_cases hseen : field.name ∈ sofar.seen
  · rw [if_pos (List.contains_iff_mem.mpr hseen), Effect.apply_setting_of_mem hseen]
    exact (Yaml.Reading.fails_throw _).bind _
  · rw [if_neg (mt List.contains_iff_mem.mp hseen), Effect.apply_setting_of_not_mem hseen]
    exact hread.bind (Yaml.Reading.yields_pure _)

/-- An entry for a field whose value cannot be read refuses the record. -/
theorem hasEffect_refusal (hkey : r.fields.find? (·.goesBy s.text) = some field)
    (hread : Fails (field.codec.ofNode ⟨depth, path.under (.scalar anchor s)⟩ node)) :
    r.HasEffect depth path (.scalar anchor s, node) .refusal := by
  intro sofar
  refine (Yaml.Reading.yields_text_scalar _ path anchor s).bind_fails ?_
  rw [hkey]
  dsimp only
  split
  · exact (Yaml.Reading.fails_throw _).bind _
  · exact hread.bind _

/-- A key that is no scalar has the mapping refused. -/
theorem hasEffect_refusal_of_key {key : Node} (hkey : key.SelfContained)
    (hscalar : ∀ anchor s, key ≠ .scalar anchor s) :
    r.HasEffect depth path (key, node) .refusal :=
  fun _ => (Yaml.Reading.fails_text hkey hscalar _ path).bind _

end

end Record

end Provision
