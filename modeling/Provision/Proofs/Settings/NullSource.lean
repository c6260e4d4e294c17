import Provision.Proofs.Attempt
import Provision.Proofs.Settings.Insertion

/-!
# Null keys in JSON

What reading gives after an object got a key with null in it, and after an item of a list under a
key changed. Reading a member has an effect, or fails and so is refused.
-/

namespace Provision

open Attempt
open Json (Source)

/-! ## Changes of a source -/

namespace Json.Source

/-- An object with one more member, anywhere among the others: a key with null. No other key stands
for the same field. -/
inductive GainsNull (field? : String → Option String) (key : String) : Source → Source → Prop
  | mk {front back : List (Except Break String × Source)} (hnew : ∀ entry ∈ front ++ back, ∀ name,
        entry.1 = .ok name → field? name ≠ field? key) :
    GainsNull field? key (.table (front ++ back)) (.table (front ++ (.ok key, .null) :: back))

/-- An object with a list under a key, of which one item changes. -/
inductive ItemChanges (key : String) (index : ℕ) (R : Source → Source → Prop) :
    Source → Source → Prop
  | mk (front back : List (Except Break String × Source)) {before after : List Source}
      (hindex : before.length = index) {item item' : Source} (h : R item item') :
    ItemChanges key index R (.table (front ++ (.ok key, .list (before ++ item :: after)) :: back))
      (.table (front ++ (.ok key, .list (before ++ item' :: after)) :: back))

end Json.Source

/-! ## Lists -/

/-- An item of a list may be read as anything else, with nothing else read another way. -/
theorem Attempt.exists_item_of_mapM {ε α β : Type} {read : α → Except ε β} {before after : List α}
    {item : α} {bs : List β} (h : (before ++ item :: after).mapM read = .ok bs) :
    ∃ b, bs[before.length]? = some b ∧ read item = .ok b ∧ ∀ item' b', read item' = .ok b' →
      (before ++ item' :: after).mapM read = .ok (bs.set before.length b') := by
  induction before generalizing bs with
  | nil =>
    rw [List.nil_append, List.mapM_cons] at h
    obtain ⟨b, hb, h⟩ := bind_eq_ok_iff.mp h
    obtain ⟨more, hmore, ⟨⟩⟩ := bind_eq_ok_iff.mp h
    refine ⟨b, rfl, hb, fun item' b' hb' => ?_⟩
    rw [List.nil_append, List.mapM_cons, hb', ok_bind, hmore, ok_bind]
    rfl
  | cons a before ih =>
    rw [List.cons_append, List.mapM_cons] at h
    obtain ⟨b, hb, h⟩ := bind_eq_ok_iff.mp h
    obtain ⟨more, hmore, ⟨⟩⟩ := bind_eq_ok_iff.mp h
    obtain ⟨found, hfound, hitem, hset⟩ := ih hmore
    refine ⟨found, hfound, hitem, fun item' b' hb' => ?_⟩
    rw [List.cons_append, List.mapM_cons, hb, ok_bind, hset item' b' hb', ok_bind]
    rfl

/-- One item of a list can be replaced by another one, and the others are read as before. -/
theorem Codec.exists_item_of_ofSource {α : Type} {codec : Codec α} {before after : List Source}
    {item : Source} {depth : ℕ} {as : List α}
    (h : codec.list.ofSource depth (.list (before ++ item :: after)) = .ok as) :
    ∃ below a, as[before.length]? = some a ∧ codec.ofSource below item = .ok a ∧
      ∀ item' a', codec.ofSource below item' = .ok a' →
        codec.list.ofSource depth (.list (before ++ item' :: after)) =
          .ok (as.set before.length a') := by
  cases depth with
  | zero => cases h
  | succ below => exact ⟨below, exists_item_of_mapM h⟩

/-! ## Records -/

namespace Record

open Effect (setting applyAll)

variable {σ : Type} {r : Record σ} {depth : ℕ}

/-- Whether a member has an effect, and sets no field but that of its key. -/
structure MemberHas (r : Record σ) (depth : ℕ) (entry : Except Json.Break String × Source)
    (effect : Effect σ) : Prop where
  has : ∀ sofar, (r.ofObject depth [entry] sofar).toOption = effect.apply sofar
  key : ∀ field a, effect = setting field a → field ∈ r.fields ∧
    ∃ name, entry.1 = .ok name ∧ r.fieldName? name = some field.name

theorem ofObject_cons (entry : Except Json.Break String × Source)
    (rest : List (Except Json.Break String × Source)) (sofar : Progress σ) :
    r.ofObject depth (entry :: rest) sofar =
      r.ofObject depth [entry] sofar >>= r.ofObject depth rest := by
  obtain ⟨key, source⟩ := entry
  simp only [ofObject, bind_assoc]
  refine bind_congr fun key => ?_
  split
  · rw [bind_assoc]
    exact bind_congr fun _ => (pure_bind _ _).symm
  · split
    · simp only [bind_assoc, pure_bind]
    · simp only [bind_assoc, pure_bind]

section

variable {name : String} {source : Source} {field : Field σ}

/-- A member for a field sets it to what its value is read as. -/
theorem memberHas_setting (hfind : r.fields.find? (·.goesBy name) = some field) {a : field.α}
    (hread : field.codec.ofSource depth source = .ok a) :
    r.MemberHas depth (.ok name, source) (setting field a) where
  has sofar := by
    simp only [ofObject, Json.Reading.spelled, ok_bind, hfind]
    by_cases hseen : field.name ∈ sofar.seen
    · rw [if_pos (List.contains_iff_mem.mpr hseen), Effect.apply_setting_of_mem hseen]
      rfl
    · rw [if_neg (mt List.contains_iff_mem.mp hseen), Effect.apply_setting_of_not_mem hseen, hread]
      rfl
  key other b heq := by
    cases heq
    exact ⟨List.mem_of_find?_eq_some hfind, name, rfl, by rw [fieldName?, hfind, Option.map_some]⟩

/-- A member for a field whose value cannot be read refuses the record. -/
theorem memberHas_refusal (hfind : r.fields.find? (·.goesBy name) = some field)
    {fault : Json.Fault} (hread : field.codec.ofSource depth source = .error fault) :
    r.MemberHas depth (.ok name, source) .refusal where
  has sofar := by
    simp only [ofObject, Json.Reading.spelled, ok_bind, hfind]
    split
    · rfl
    · rw [hread]
      rfl
  key := nofun

/-- Every member of an object has an effect. -/
theorem exists_memberEffect (r : Record σ) (depth : ℕ)
    (entry : Except Json.Break String × Source) : ∃ effect, r.MemberHas depth entry effect := by
  obtain ⟨spelled, source⟩ := entry
  cases spelled with
  | error cause => exact ⟨.refusal, fun _ => rfl, nofun⟩
  | ok name =>
    cases hfind : r.fields.find? (·.goesBy name) with
    | none =>
      -- a member of no field still has to be whole
      cases hskip : Json.Reading.skip source with
      | error fault =>
        refine ⟨.refusal, fun sofar => ?_, nofun⟩
        simp only [ofObject, Json.Reading.spelled, ok_bind, hfind, hskip]
        rfl
      | ok _ =>
        refine ⟨.nothing, fun sofar => ?_, nofun⟩
        simp only [ofObject, Json.Reading.spelled, ok_bind, hfind, hskip]
        rfl
    | some field =>
      cases hread : field.codec.ofSource depth source with
      | error fault => exact ⟨_, memberHas_refusal hfind hread⟩
      | ok a => exact ⟨_, memberHas_setting hfind hread⟩

end

/-- The members of an object have their effects one by one. -/
theorem exists_memberEffects (r : Record σ) (depth : ℕ)
    (entries : List (Except Json.Break String × Source)) :
    ∃ effects, List.Forall₂ (r.MemberHas depth) entries effects := by
  induction entries with
  | nil => exact ⟨[], .nil⟩
  | cons entry rest ih =>
    obtain ⟨effect, heffect⟩ := exists_memberEffect r depth entry
    obtain ⟨effects, heffects⟩ := ih
    exact ⟨effect :: effects, .cons heffect heffects⟩

/-- A field that is set is set by a member that goes by its name. -/
theorem exists_member {entries : List (Except Json.Break String × Source)}
    {effects : List (Effect σ)} (h : List.Forall₂ (r.MemberHas depth) entries effects)
    {field : Field σ} {a : field.α} (hmem : setting field a ∈ effects) :
    field ∈ r.fields ∧ ∃ entry ∈ entries, ∃ name,
      entry.1 = .ok name ∧ r.fieldName? name = some field.name := by
  obtain ⟨entry, hentry, heffect⟩ := exists_of_mem_effects h hmem
  obtain ⟨hfield, hkey⟩ := heffect.key field a rfl
  exact ⟨hfield, entry, hentry, hkey⟩

/-- Reading the members is doing what they have for effects. -/
theorem toOption_ofObject {entries : List (Except Json.Break String × Source)}
    {effects : List (Effect σ)} (h : List.Forall₂ (r.MemberHas depth) entries effects)
    (sofar : Progress σ) :
    (r.ofObject depth entries sofar).toOption = applyAll effects sofar := by
  induction h generalizing sofar with
  | nil => rfl
  | cons hentry _ ih =>
    rw [ofObject_cons, Effect.applyAll_cons, toOption_bind, hentry.has]
    exact Option.bind_congr fun p _ => ih p

/-- An object is read as what the effects of its members come to. -/
theorem toOption_ofSource {entries : List (Except Json.Break String × Source)}
    {effects : List (Effect σ)} (h : List.Forall₂ (r.MemberHas depth) entries effects) :
    (r.ofSource (depth + 1) (.table entries)).toOption = r.outcome effects := by
  unfold ofSource outcome
  dsimp only
  rw [toOption_bind, toOption_ofObject h]
  refine Option.bind_congr fun p _ => ?_
  unfold complete?
  cases r.missing? p.seen with
  | none => rfl
  | some name => rfl

/-- No record is read where collections cannot nest any deeper. -/
theorem exists_deeper_of_ofSource {entries : List (Except Json.Break String × Source)} {s : σ}
    (h : r.ofSource depth (.table entries) = .ok s) : ∃ below, depth = below + 1 := by
  cases depth with
  | zero => cases h
  | succ below => exact ⟨below, rfl⟩

/-- The effects of members are on fields of the record. -/
theorem sets_of_members {entries : List (Except Json.Break String × Source)}
    {effects : List (Effect σ)} (h : List.Forall₂ (r.MemberHas depth) entries effects) :
    r.Sets effects :=
  fun _ _ hmem => (exists_member h hmem).1

/-- A record whose object gains a key with null gets what null is read as. What makes no difference
in the blank record made none in this one either. -/
theorem ofSource_of_gainsNull (hcommutes : r.Commutes) {key : String} {field : Field σ}
    (hfind : r.fields.find? (·.goesBy key) = some field) {a : field.α}
    (hnull : ∀ depth, field.codec.ofSource depth .null = .ok a) {source source' : Source}
    (h : source.GainsNull r.fieldName? key source') {s : σ}
    (hs : r.ofSource depth source = .ok s) :
    r.ofSource depth source' = .ok (field.put a s) ∧
      ∀ b, field.put b r.blank = r.blank → field.put b s = s := by
  cases h with
  | @mk front back hnew =>
    obtain ⟨depth, rfl⟩ := exists_deeper_of_ofSource hs
    obtain ⟨effects, heffects⟩ := exists_memberEffects r depth front
    obtain ⟨effects', heffects'⟩ := exists_memberEffects r depth back
    have hall := List.rel_append heffects heffects'
    have hother : ∀ other b, setting other b ∈ effects ++ effects' →
        some other.name ≠ r.fieldName? key := by
      intro other b hmem
      obtain ⟨-, entry, hentry, name, hspelled, hname⟩ := exists_member hall hmem
      rw [← hname]
      exact hnew entry hentry name hspelled
    have houtcome : r.outcome (effects ++ effects') = some s := by
      rw [← toOption_ofSource hall, hs]
      rfl
    obtain ⟨hput, hsame⟩ :=
      outcome_gains hcommutes (sets_of_members hall) hfind hother houtcome a
    refine ⟨?_, hsame⟩
    -- the other members have the effects they had
    have hgained : List.Forall₂ (r.MemberHas depth) (front ++ (.ok key, .null) :: back)
        (effects ++ setting field a :: effects') :=
      List.rel_append heffects (.cons (memberHas_setting hfind (hnull depth)) heffects')
    rw [← toOption_eq_some_iff, toOption_ofSource hgained]
    exact hput

/-- The list under a key of an object, of which an item changes: the item may be read as anything
else, and then that item of the record is something else. -/
theorem exists_item_of_sourceChanges (hr : r.Lawful) (hcommutes : r.Commutes) {β : Type}
    {codec : Codec β} {name : String} {get : σ → List β} {put : List β → σ → σ}
    (hfield : .list name codec get put ∈ r.fields) {index : ℕ} {R : Source → Source → Prop}
    {source source' : Source} (h : source.ItemChanges name index R source') {s : σ}
    (hs : r.ofSource depth source = .ok s) :
    ∃ item item', R item item' ∧ ∃ below bs b record, s = put bs record ∧ bs[index]? = some b ∧
      codec.ofSource below item = .ok b ∧ ∀ b', codec.ofSource below item' = .ok b' →
        r.ofSource depth source' = .ok (put (bs.set index b') record) := by
  cases h with
  | @mk front back before after hindex item item' hR =>
    subst hindex
    obtain ⟨depth, rfl⟩ := exists_deeper_of_ofSource hs
    obtain ⟨effects, heffects⟩ := exists_memberEffects r depth front
    obtain ⟨effects', heffects'⟩ := exists_memberEffects r depth back
    have hfind : r.fields.find? (·.goesBy name) = some (.list name codec get put) :=
      find?_name hr.distinct _ hfield
    have hsets : r.Sets (effects ++ effects') :=
      sets_of_members (List.rel_append heffects heffects')
    -- what the object is read as when the list has an effect
    have hread : ∀ {items} {effect : Effect σ}, r.MemberHas depth (.ok name, .list items) effect →
        (r.ofSource (depth + 1) (.table (front ++ (.ok name, .list items) :: back))).toOption =
          r.outcome (effects ++ effect :: effects') :=
      fun heffect => toOption_ofSource (List.rel_append heffects (.cons heffect heffects'))
    cases hresult : codec.list.ofSource depth (.list (before ++ item :: after)) with
    | error fault =>
      -- a list that is refused leaves no record
      have hrefused := hread (memberHas_refusal hfind hresult)
      rw [outcome_refusal, hs] at hrefused
      cases hrefused
    | ok bs =>
      have houtcome := hread (memberHas_setting hfind hresult)
      rw [hs] at houtcome
      obtain ⟨record, rfl, hput⟩ := exists_of_outcome hcommutes hsets hfield houtcome.symm
      obtain ⟨below, b, hb, hitem, hset⟩ := Codec.exists_item_of_ofSource hresult
      refine ⟨item, item', hR, below, bs, b, record, rfl, hb, hitem, fun b' hb' => ?_⟩
      have hchanged := hread (memberHas_setting hfind (hset item' b' hb'))
      rw [hput (bs.set before.length b')] at hchanged
      exact toOption_eq_some_iff.mp hchanged

end Record

end Provision
