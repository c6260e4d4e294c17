import Provision.Proofs.Settings.Canonical

/-!
# One more entry

What becomes of a record when its document gets one more entry, or another one in the place of an
entry. Effects may be taken in any order, so the entry in question may be the last one: the rest of
them make up a record, and the entry only puts its field into that (`exists_of_outcome`,
`outcome_insert`). Where that changes nothing in the blank record it changes nothing in any
record that was made without the field (`put_of_outcome`).
-/

namespace Provision.Record

open Effect (setting applyAll)

variable {σ : Type} {r : Record σ}

/-- The record that effects come to, if they are not refused and nothing is missing. -/
def complete? (r : Record σ) (p : Progress σ) : Option σ :=
  match r.missing? p.seen with
  | some _ => none
  | none => some p.record

/-- What the effects of all entries come to. -/
def outcome (r : Record σ) (effects : List (Effect σ)) : Option σ :=
  (applyAll effects ⟨r.blank, []⟩).bind r.complete?

/-- Whether effects set only fields of the record. -/
def Sets (r : Record σ) (effects : List (Effect σ)) : Prop :=
  ∀ field a, setting field a ∈ effects → field ∈ r.fields

/-! ## Effects one after the other -/

/-- Whether a record is complete depends on which fields were seen, not on their order. -/
theorem complete?_congr {p q : Progress σ} (h : p.Same q) : r.complete? p = r.complete? q := by
  unfold complete?
  rw [missing?_congr h.seen, h.record]

/-- Effects on fields that commute have one outcome in any order. -/
theorem outcome_perm (hcommutes : r.Commutes) {effects effects' : List (Effect σ)}
    (hperm : effects.Perm effects') (hsets : r.Sets effects) :
    r.outcome effects = r.outcome effects' := by
  have hsame := Effect.applyAll_perm hcommutes.of_ne hperm hsets ⟨r.blank, []⟩
  unfold outcome
  generalize applyAll effects ⟨r.blank, []⟩ = result at hsame
  generalize applyAll effects' ⟨r.blank, []⟩ = result' at hsame
  cases hsame with
  | none => rfl
  | some hsame => exact complete?_congr hsame

/-- Effects in two parts take place one part after the other. -/
theorem applyAll_append (effects effects' : List (Effect σ)) (sofar : Progress σ) :
    applyAll (effects ++ effects') sofar = (applyAll effects sofar).bind (applyAll effects') :=
  List.foldlM_append

/-- A refused entry leaves no outcome, wherever it stands. -/
theorem outcome_refusal (front back : List (Effect σ)) :
    r.outcome (front ++ .refusal :: back) = none := by
  unfold outcome
  rw [applyAll_append]
  cases applyAll front ⟨r.blank, []⟩ with
  | none => rfl
  | some p => rfl

/-- The fields that are seen after an effect are those before and the one it sets. -/
theorem mem_seen_of_apply {effect : Effect σ} {sofar p : Progress σ}
    (h : effect.apply sofar = some p) {name : String} (hname : name ∈ p.seen) :
    name ∈ sofar.seen ∨ ∃ field a, effect = setting field a ∧ field.name = name := by
  cases effect with
  | refusal => cases h
  | nothing =>
    cases h
    exact .inl hname
  | setting field a =>
    by_cases hmem : field.name ∈ sofar.seen
    · rw [Effect.apply_setting_of_mem hmem] at h
      cases h
    · rw [Effect.apply_setting_of_not_mem hmem] at h
      cases h
      rcases List.mem_cons.mp hname with rfl | hname
      · exact .inr ⟨field, a, rfl, rfl⟩
      · exact .inl hname

/-- What was set was set before, or by one of the effects. -/
theorem mem_seen_of_applyAll {effects : List (Effect σ)} {sofar p : Progress σ}
    (h : applyAll effects sofar = some p) {name : String} (hname : name ∈ p.seen) :
    name ∈ sofar.seen ∨ ∃ field a, setting field a ∈ effects ∧ field.name = name := by
  induction effects generalizing sofar with
  | nil =>
    cases h
    exact .inl hname
  | cons effect rest ih =>
    rw [Effect.applyAll_cons] at h
    obtain ⟨middle, hmiddle, hrest⟩ := Option.bind_eq_some_iff.mp h
    rcases ih hrest with hseen | ⟨field, a, hmem, heq⟩
    · rcases mem_seen_of_apply hmiddle hseen with hseen | ⟨field, a, rfl, heq⟩
      · exact .inl hseen
      · exact .inr ⟨field, a, List.mem_cons_self, heq⟩
    · exact .inr ⟨field, a, List.mem_cons_of_mem _ hmem, heq⟩

/-- With one more field set nothing is missing that was not before. -/
theorem missing?_cons {seen : List String} (h : r.missing? seen = none) (name : String) :
    r.missing? (name :: seen) = none := by
  unfold missing? at h ⊢
  rw [Option.map_eq_none_iff, List.find?_eq_none] at h ⊢
  intro field hfield hmissing
  obtain ⟨hrequired, hunseen⟩ := Bool.and_eq_true_iff.mp hmissing
  refine h field hfield (Bool.and_eq_true_iff.mpr ⟨hrequired, ?_⟩)
  simp only [List.contains_cons, Bool.not_or, Bool.and_eq_true] at hunseen
  exact hunseen.2

/-- A complete record has all the fields that are needed. -/
theorem exists_of_complete? {p : Progress σ} {s : σ} (h : r.complete? p = some s) :
    r.missing? p.seen = none ∧ p.record = s := by
  unfold complete? at h
  split at h
  · cases h
  · next hmissing => exact ⟨hmissing, Option.some.inj h⟩

/-- A record with all the fields that are needed is complete. -/
theorem complete?_of_missing? {p : Progress σ} (h : r.missing? p.seen = none) :
    r.complete? p = some p.record := by
  unfold complete?
  rw [h]

/-! ## An entry among others -/

section

variable {front back : List (Effect σ)} {field : Field σ} {a : field.α} {s : σ}

/-- An effect can be moved behind the others. -/
theorem perm_last (front back : List (Effect σ)) (effect : Effect σ) :
    (front ++ effect :: back).Perm (front ++ back ++ [effect]) := by
  rw [List.append_assoc]
  exact (List.perm_append_singleton effect back).symm.append_left front

/-- One more field that is set leaves effects on fields of the record. -/
theorem sets_of_insert (h : r.Sets (front ++ back)) (hfield : field ∈ r.fields) (a : field.α) :
    r.Sets (front ++ setting field a :: back) := by
  intro other b hmem
  rcases List.mem_append.mp hmem with hmem | hmem
  · exact h other b (List.mem_append_left _ hmem)
  · rcases List.mem_cons.mp hmem with heq | hmem
    · cases heq
      exact hfield
    · exact h other b (List.mem_append_right _ hmem)

/-- The entry may be the last one. -/
theorem outcome_last (hcommutes : r.Commutes) (hsets : r.Sets (front ++ back))
    (hfield : field ∈ r.fields) (a : field.α) :
    r.outcome (front ++ setting field a :: back) =
      ((applyAll (front ++ back) ⟨r.blank, []⟩).bind (setting field a).apply).bind r.complete? := by
  rw [outcome_perm hcommutes (perm_last _ _ _) (sets_of_insert hsets hfield a)]
  unfold outcome
  rw [applyAll_append]
  congr 2
  funext sofar
  rw [Effect.applyAll_cons]
  cases (setting field a).apply sofar <;> rfl

/-- An entry puts its field into a record that does not depend on what it puts there. -/
theorem exists_of_outcome (hcommutes : r.Commutes) (hsets : r.Sets (front ++ back))
    (hfield : field ∈ r.fields) (h : r.outcome (front ++ setting field a :: back) = some s) :
    ∃ record, s = field.put a record ∧
      ∀ b, r.outcome (front ++ setting field b :: back) = some (field.put b record) := by
  rw [outcome_last hcommutes hsets hfield] at h
  obtain ⟨last, hlast, hcomplete⟩ := Option.bind_eq_some_iff.mp h
  obtain ⟨p, hp, happly⟩ := Option.bind_eq_some_iff.mp hlast
  by_cases hmem : field.name ∈ p.seen
  · -- the field twice is refused
    rw [Effect.apply_setting_of_mem hmem] at happly
    cases happly
  · rw [Effect.apply_setting_of_not_mem hmem] at happly
    cases happly
    obtain ⟨hmissing, rfl⟩ := exists_of_complete? hcomplete
    refine ⟨p.record, rfl, fun b => ?_⟩
    rw [outcome_last hcommutes hsets hfield, hp, Option.bind_some,
      Effect.apply_setting_of_not_mem hmem, Option.bind_some]
    exact complete?_of_missing? hmissing

/-- One more entry, for a field that no other sets, puts that field into the record. -/
theorem outcome_insert (hcommutes : r.Commutes) (hsets : r.Sets (front ++ back))
    (hfield : field ∈ r.fields)
    (hnew : ∀ other b, setting other b ∈ front ++ back → other.name ≠ field.name)
    (h : r.outcome (front ++ back) = some s) (a : field.α) :
    r.outcome (front ++ setting field a :: back) = some (field.put a s) := by
  obtain ⟨p, hp, hcomplete⟩ := Option.bind_eq_some_iff.mp h
  obtain ⟨hmissing, rfl⟩ := exists_of_complete? hcomplete
  have hmem : field.name ∉ p.seen := by
    intro hmem
    rcases mem_seen_of_applyAll hp hmem with hblank | ⟨other, b, hother, heq⟩
    · exact List.not_mem_nil hblank
    · exact hnew other b hother heq
  rw [outcome_last hcommutes hsets hfield, hp, Option.bind_some,
    Effect.apply_setting_of_not_mem hmem, Option.bind_some]
  exact complete?_of_missing? (missing?_cons hmissing field.name)

end

/-! ## A field that stays blank -/

section

variable {field : Field σ} {a : field.α}

/-- An effect on another field leaves a field at the value it has. -/
theorem put_of_apply {effect : Effect σ}
    (hcommutes : ∀ other b, effect = setting other b → field.Commutes other) {sofar p : Progress σ}
    (h : field.put a sofar.record = sofar.record) (hp : effect.apply sofar = some p) :
    field.put a p.record = p.record := by
  cases effect with
  | refusal => cases hp
  | nothing =>
    cases hp
    exact h
  | setting other b =>
    by_cases hmem : other.name ∈ sofar.seen
    · rw [Effect.apply_setting_of_mem hmem] at hp
      cases hp
    · rw [Effect.apply_setting_of_not_mem hmem] at hp
      cases hp
      show field.put a (other.put b sofar.record) = other.put b sofar.record
      rw [hcommutes other b rfl, h]

/-- Effects on other fields leave a field at the value it has. -/
theorem put_of_applyAll {effects : List (Effect σ)}
    (hcommutes : ∀ other b, setting other b ∈ effects → field.Commutes other)
    {sofar p : Progress σ} (h : field.put a sofar.record = sofar.record)
    (hp : applyAll effects sofar = some p) : field.put a p.record = p.record := by
  induction effects generalizing sofar with
  | nil =>
    cases hp
    exact h
  | cons effect rest ih =>
    rw [Effect.applyAll_cons] at hp
    obtain ⟨middle, hmiddle, hrest⟩ := Option.bind_eq_some_iff.mp hp
    have hmiddle := put_of_apply (fun other b heq => hcommutes other b (by simp [heq])) h hmiddle
    exact ih (fun other b hmem => hcommutes other b (List.mem_cons_of_mem _ hmem)) hmiddle hrest

/-- Putting into a field that no entry set what makes no difference in the blank record makes none
in the record either. -/
theorem put_of_outcome (hcommutes : r.Commutes) {effects : List (Effect σ)} (hsets : r.Sets effects)
    (hfield : field ∈ r.fields)
    (hnew : ∀ other b, setting other b ∈ effects → other.name ≠ field.name)
    (hblank : field.put a r.blank = r.blank) {s : σ} (h : r.outcome effects = some s) :
    field.put a s = s := by
  obtain ⟨p, hp, hcomplete⟩ := Option.bind_eq_some_iff.mp h
  obtain ⟨-, rfl⟩ := exists_of_complete? hcomplete
  refine put_of_applyAll (fun other b hmem => ?_) hblank hp
  exact hcommutes.of_ne field hfield other (hsets other b hmem) (hnew other b hmem).symm

end

/-- One more entry, for a field that no other sets, puts that field into the record. What could be put
there before without making a difference in the blank record made none in this one either. -/
theorem outcome_gains (hcommutes : r.Commutes) {front back : List (Effect σ)}
    (hsets : r.Sets (front ++ back)) {key : String} {field : Field σ}
    (hfind : r.fields.find? (·.goesBy key) = some field)
    (hnew : ∀ other b, setting other b ∈ front ++ back → some other.name ≠ r.fieldName? key) {s : σ}
    (h : r.outcome (front ++ back) = some s) (a : field.α) :
    r.outcome (front ++ setting field a :: back) = some (field.put a s) ∧
      ∀ b, field.put b r.blank = r.blank → field.put b s = s := by
  have hfield := List.mem_of_find?_eq_some hfind
  have hother : ∀ other b, setting other b ∈ front ++ back → other.name ≠ field.name := by
    intro other b hmem heq
    refine hnew other b hmem ?_
    rw [fieldName?, hfind, Option.map_some, heq]
  exact ⟨outcome_insert hcommutes hsets hfield hother h a,
    fun b hblank => put_of_outcome hcommutes hsets hfield hother hblank h⟩

/-! ## Entries and their effects -/

theorem exists_of_mem_effects {γ : Type} {R : γ → Effect σ → Prop} {entries : List γ}
    {effects : List (Effect σ)} (h : List.Forall₂ R entries effects) {effect : Effect σ}
    (hmem : effect ∈ effects) : ∃ entry ∈ entries, R entry effect := by
  induction h with
  | nil => cases hmem
  | cons hhead _ ih =>
    rcases List.mem_cons.mp hmem with rfl | hmem
    · exact ⟨_, List.mem_cons_self, hhead⟩
    · obtain ⟨entry, hentry, heffect⟩ := ih hmem
      exact ⟨entry, List.mem_cons_of_mem _ hentry, heffect⟩

end Provision.Record
