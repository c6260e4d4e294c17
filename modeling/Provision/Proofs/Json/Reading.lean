import Provision.Json.Reading
import Provision.Proofs.Json.Source

/-!
# Free values in JSON

A reading of free values gives only readable ones, as long as the integers of the document have at
most 64 bits. The same goes for options.
-/

namespace Provision.Json.Reading

variable {α β : Type}

/-- Whether everything that a reading gives has a property. -/
def Ensures (reading : Reading α) (P : α → Prop) : Prop :=
  ∀ a, reading = .ok a → P a

theorem ensures_pure {P : α → Prop} {a : α} (h : P a) : Ensures (pure a) P := by
  intro b hb
  cases hb
  exact h

theorem ensures_throw {P : α → Prop} (fault : Fault) : Ensures (throw fault : Reading α) P := by
  intro b hb
  cases hb

theorem Ensures.bind {reading : Reading α} {f : α → Reading β} {P : α → Prop} {Q : β → Prop}
    (h : Ensures reading P) (hf : ∀ a, P a → Ensures (f a) Q) : Ensures (reading >>= f) Q := by
  intro b hb
  cases hread : reading with
  | error fault => rw [hread] at hb; cases hb
  | ok a =>
    rw [hread] at hb
    exact hf a (h a hread) b hb

/-- A bind whose second part ensures the property whatever the first gives. -/
theorem ensures_bind {reading : Reading α} {f : α → Reading β} {Q : β → Prop}
    (hf : ∀ a, Ensures (f a) Q) : Ensures (reading >>= f) Q :=
  Ensures.bind (P := fun _ => True) (fun _ _ => trivial) fun a _ => hf a

/-- What follows a fault is not read. -/
theorem ensures_throw_bind {fault : Fault} {f : α → Reading β} {Q : β → Prop} :
    Ensures ((throw fault : Reading α) >>= f) Q :=
  Ensures.bind (P := fun _ => False) (ensures_throw fault) fun _ hfalse => hfalse.elim

theorem Ensures.map {reading : Reading α} {P : α → Prop} {f : α → β} {Q : β → Prop}
    (h : Ensures reading P) (hf : ∀ a, P a → Q (f a)) : Ensures (f <$> reading) Q := by
  rw [map_eq_pure_bind]
  exact h.bind fun a ha => ensures_pure (hf a ha)

theorem Ensures.imp {reading : Reading α} {P Q : α → Prop} (h : Ensures reading P)
    (himp : ∀ a, P a → Q a) : Ensures reading Q :=
  fun a ha => himp a (h a ha)

theorem ensures_mismatch {P : α → Prop} (expected : Expected) (source : Source) :
    Ensures (mismatch expected source : Reading α) P :=
  ensures_bind fun _ => ensures_throw _

/-- What every item ensures holds of all that were read. -/
theorem ensures_mapM {read : Source → Reading α} {P : α → Prop} {sources : List Source}
    (h : ∀ source ∈ sources, Ensures (read source) P) :
    Ensures (sources.mapM read) fun as => ∀ a ∈ as, P a := by
  induction sources with
  | nil => exact ensures_pure (by simp)
  | cons source rest ih =>
    obtain ⟨hhead, hrest⟩ := List.forall_mem_cons.mp h
    rw [List.mapM_cons]
    refine hhead.bind fun a ha => (ih hrest).bind fun as has => ensures_pure ?_
    exact List.forall_mem_cons.mpr ⟨ha, has⟩

/-- What an item ensures holds of every item of a list. -/
theorem ensures_list {read : ℕ → Source → Reading α} {P : α → Prop} {depth : ℕ}
    (h : ∀ source, source.Bounded → Ensures (read depth source) P) {source : Source}
    (hsource : source.Bounded) :
    Ensures (list read (depth + 1) source) fun as => ∀ a ∈ as, P a := by
  unfold list
  split
  · cases hsource with
    | list hitems => exact ensures_mapM fun source hmem => h source (hitems source hmem)
  · exact ensures_mismatch _ _

/-! ## Free values -/

/-- The entries of a table are readable and have distinct keys, with those before them. -/
theorem ensures_tableEntries {read : Source → Reading Value} {depth : ℕ}
    {entries : List (Except Break String × Source)}
    (h : ∀ entry ∈ entries, Ensures (read entry.2) (Value.Readable depth))
    {before : List (Value × Value)}
    (hbefore : Value.Readable (depth + 1) (.table before.reverse)) :
    Ensures (tableEntries read entries before) fun entries =>
      Value.Readable (depth + 1) (.table entries) := by
  induction entries generalizing before with
  | nil => exact ensures_pure hbefore
  | cons entry rest ih =>
    obtain ⟨key, source⟩ := entry
    obtain ⟨hentry, hrest⟩ := List.forall_mem_cons.mp h
    refine ensures_bind fun name => ?_
    dsimp only
    split
    · exact ensures_throw_bind
    · next hnew =>
      refine hentry.bind fun value hvalue => ih hrest ?_
      exact hbefore.table_cons (Bool.eq_false_iff.mpr hnew) (.text name) hvalue

/-- What is read with parts one level down is readable one level up; without, there are no parts. -/
theorem ensures_valueBy {inner : Option (Source → Reading Value)} {depth : ℕ}
    (h : ∀ read, inner = some read → ∃ below, depth = below + 1 ∧
      ∀ source, source.Bounded → Ensures (read source) (Value.Readable below))
    {source : Source} (hsource : source.Bounded) :
    Ensures (valueBy inner source) (Value.Readable depth) := by
  cases hsource with
  | null => exact ensures_pure .null
  | bool b => exact ensures_pure (.bool b)
  | text spelled => exact ensures_bind fun s => ensures_pure (.text s)
  | cut read skipped afterComma => exact ensures_throw _
  | @number value hint =>
    cases value with
    | none => exact ensures_throw _
    | some atom =>
      unfold valueBy
      dsimp only
      split
      · next value hvalue =>
        refine ensures_pure (Value.readable_ofAtom? hvalue (fun n hn => ?_) depth).1
        exact hint n (by rw [hn])
      · exact ensures_throw _
  -- lists and tables are read one level further down, as long as there is one
  | list hitems =>
    cases inner with
    | none => exact ensures_throw _
    | some read =>
      obtain ⟨below, rfl, hread⟩ := h read rfl
      exact (ensures_mapM fun source hmem => hread source (hitems source hmem)).map
        fun items hitems => .list hitems
  | table hentries =>
    cases inner with
    | none => exact ensures_throw _
    | some read =>
      obtain ⟨below, rfl, hread⟩ := h read rfl
      have hempty : Value.Readable (below + 1) (.table ([] : List (Value × Value)).reverse) :=
        .table List.Pairwise.nil (by simp) (by simp)
      exact (ensures_tableEntries (fun entry hmem => hread entry.2 (hentries entry hmem))
        hempty).map fun entries hentries => hentries

/-- The values of a document are readable. -/
theorem ensures_value (depth : ℕ) {source : Source} (hsource : source.Bounded) :
    Ensures (value depth source) (Value.Readable depth) := by
  induction depth generalizing source with
  | zero => exact ensures_valueBy (fun read hread => by cases hread) hsource
  | succ depth ih =>
    refine ensures_valueBy (fun read hread => ⟨depth, rfl, ?_⟩) hsource
    cases hread
    exact fun source hsource => ih hsource

/-- Options stay readable while their entries are read. -/
theorem ensures_optionEntries {depth : ℕ} {entries : List (Except Break String × Source)}
    (hentries : ∀ entry ∈ entries, entry.2.Bounded) {options : Options}
    (h : options.Readable depth) :
    Ensures (optionEntries depth entries options) (Options.Readable depth) := by
  induction entries generalizing options with
  | nil => exact ensures_pure h
  | cons entry rest ih =>
    obtain ⟨hentry, hrest⟩ := List.forall_mem_cons.mp hentries
    refine ensures_bind fun name => (ensures_value depth hentry).bind fun value hvalue => ?_
    exact ih hrest (h.set hvalue)

/-- The options of a document are readable. -/
theorem ensures_options (depth : ℕ) {source : Source} (hsource : source.Bounded) :
    Ensures (options (depth + 1) source) (Options.Readable depth) := by
  unfold options
  split
  · cases hsource with
    | table hentries => exact ensures_optionEntries hentries Options.readable_nil
  · exact ensures_mismatch _ _

end Provision.Json.Reading
