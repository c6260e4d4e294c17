import Mathlib.Data.Nat.Notation
import Provision.Yaml.Reading

/-!
# What readings give

A reading yields a value when it gives that value from every document and follows no alias on the
way; it ensures a property when nothing it ever gives is without it, in one document or in all. All
of it goes through the combinators that readings are put together from.
-/

namespace Provision.Yaml.Reading

variable {α β : Type}

/-- Whether a reading gives `a`, whatever the document, and leaves the count of aliases as it is. -/
def Yields (reading : Reading α) (a : α) : Prop :=
  ∀ document count, reading document count = .ok (a, count)

/-- Whether everything that a reading gives in a document has a property. -/
def EnsuresIn (document : Document) (reading : Reading α) (P : α → Prop) : Prop :=
  ∀ count a count', reading document count = .ok (a, count') → P a

/-- Whether everything that a reading gives has a property. -/
def Ensures (reading : Reading α) (P : α → Prop) : Prop :=
  ∀ document count a count', reading document count = .ok (a, count') → P a

theorem bind_apply (reading : Reading α) (f : α → Reading β) (document : Document) (count : Nat) :
    (reading >>= f) document count = match reading document count with
      | .error fault => .error fault
      | .ok (a, count) => f a document count := by
  show (StateT.bind (reading document) fun a => f a document) count = _
  unfold StateT.bind
  cases reading document count with
  | error fault => rfl
  | ok pair => rfl

/-! ## Yielding -/

theorem yields_pure (a : α) : Yields (pure a) a := fun _ _ => rfl

theorem Yields.bind {reading : Reading α} {f : α → Reading β} {a : α} {b : β}
    (h : Yields reading a) (hf : Yields (f a) b) : Yields (reading >>= f) b := by
  intro document count
  rw [bind_apply, h document count]
  exact hf document count

theorem Yields.map {reading : Reading α} {a : α} (h : Yields reading a) (f : α → β) :
    Yields (f <$> reading) (f a) := by
  rw [map_eq_pure_bind]
  exact h.bind (yields_pure (f a))

theorem Yields.located {reading : Reading α} {a : α} (h : Yields reading a) (path : Path) :
    Yields (Reading.located path reading) a := by
  intro document count
  unfold Reading.located
  rw [h document count]

/-- A node that is no alias stands for itself. -/
theorem yields_resolve {node : Node} (h : ∀ target, node ≠ .alias target) :
    Yields (resolve node) node := by
  intro document count
  unfold resolve
  split
  · next target => exact absurd rfl (h target)
  · rfl

/-! ## Ensuring in a document -/

section

variable {document : Document} {reading : Reading α} {P : α → Prop}

theorem Ensures.within (h : Ensures reading P) (document : Document) :
    EnsuresIn document reading P := h document

theorem EnsuresIn.bind {f : α → Reading β} {Q : β → Prop} (h : EnsuresIn document reading P)
    (hf : ∀ a, P a → EnsuresIn document (f a) Q) : EnsuresIn document (reading >>= f) Q := by
  intro count b count' hb
  rw [bind_apply] at hb
  cases hread : reading document count with
  | error fault => rw [hread] at hb; cases hb
  | ok pair =>
    obtain ⟨a, middle⟩ := pair
    rw [hread] at hb
    exact hf a (h count a middle hread) middle b count' hb

theorem ensuresIn_pure {a : α} (h : P a) : EnsuresIn document (pure a) P := by
  intro count b count' hb
  cases hb
  exact h

theorem EnsuresIn.map {f : α → β} {Q : β → Prop} (h : EnsuresIn document reading P)
    (hf : ∀ a, P a → Q (f a)) : EnsuresIn document (f <$> reading) Q := by
  rw [map_eq_pure_bind]
  exact h.bind fun a ha => ensuresIn_pure (hf a ha)

theorem EnsuresIn.located (h : EnsuresIn document reading P) (path : Path) :
    EnsuresIn document (Reading.located path reading) P := by
  intro count b count' hb
  refine h count b count' ?_
  unfold Reading.located at hb
  split at hb
  · cases hb
  · exact hb

theorem EnsuresIn.imp {Q : α → Prop} (h : EnsuresIn document reading P)
    (himp : ∀ a, P a → Q a) : EnsuresIn document reading Q :=
  fun count a count' ha => himp a (h count a count' ha)

/-- A bind whose second part ensures the property whatever the first gives. -/
theorem ensuresIn_bind {f : α → Reading β} {Q : β → Prop}
    (hf : ∀ a, EnsuresIn document (f a) Q) : EnsuresIn document (reading >>= f) Q :=
  EnsuresIn.bind (P := fun _ => True) (fun _ _ _ _ => trivial) fun a _ => hf a

end

/-! ## Ensuring in every document -/

theorem ensures_pure {P : α → Prop} {a : α} (h : P a) : Ensures (pure a) P :=
  fun _ => ensuresIn_pure h

theorem ensures_throw {P : α → Prop} (fault : Fault) : Ensures (throw fault : Reading α) P := by
  intro document count b count' hb
  cases hb

theorem Ensures.bind {reading : Reading α} {f : α → Reading β} {P : α → Prop} {Q : β → Prop}
    (h : Ensures reading P) (hf : ∀ a, P a → Ensures (f a) Q) : Ensures (reading >>= f) Q :=
  fun document => (h.within document).bind fun a ha => (hf a ha).within document

/-- A bind whose second part ensures the property whatever the first gives. -/
theorem ensures_bind {reading : Reading α} {f : α → Reading β} {Q : β → Prop}
    (hf : ∀ a, Ensures (f a) Q) : Ensures (reading >>= f) Q :=
  fun document => ensuresIn_bind fun a => (hf a).within document

/-- What follows a fault is not read. -/
theorem ensures_throw_bind {fault : Fault} {f : α → Reading β} {Q : β → Prop} :
    Ensures ((throw fault : Reading α) >>= f) Q :=
  Ensures.bind (P := fun _ => False) (ensures_throw fault) fun _ hfalse => hfalse.elim

theorem ensures_pure_bind {a : α} {f : α → Reading β} {Q : β → Prop} (hf : Ensures (f a) Q) :
    Ensures ((pure a : Reading α) >>= f) Q :=
  Ensures.bind (P := fun b => b = a) (ensures_pure rfl) fun b hb => by rw [hb]; exact hf

theorem Ensures.map {reading : Reading α} {P : α → Prop} {f : α → β} {Q : β → Prop}
    (h : Ensures reading P) (hf : ∀ a, P a → Q (f a)) : Ensures (f <$> reading) Q :=
  fun document => (h.within document).map hf

theorem Ensures.located {reading : Reading α} {P : α → Prop} (h : Ensures reading P)
    (path : Path) : Ensures (Reading.located path reading) P :=
  fun document => (h.within document).located path

theorem Ensures.imp {reading : Reading α} {P Q : α → Prop} (h : Ensures reading P)
    (himp : ∀ a, P a → Q a) : Ensures reading Q :=
  fun document => (h.within document).imp himp

/-- Where a document breaks off nothing is read. -/
theorem ensures_brokenOff {P : α → Prop} : Ensures (brokenOff : Reading α) P := by
  unfold brokenOff
  refine ensures_bind fun document => ?_
  split
  · exact ensures_throw _
  · exact ensures_throw _

/-- A node of another kind than the expected one is not read. -/
theorem ensures_mismatch {P : α → Prop} (expected : Expected) (node : Node) :
    Ensures (mismatch expected node : Reading α) P := by
  unfold mismatch
  split
  · split <;> exact ensures_throw _
  · exact ensures_throw _
  · exact ensures_throw _
  all_goals exact ensures_brokenOff

/-- What every item ensures holds of all that were read. -/
theorem ensures_items {read : Path → Node → Reading α} {P : α → Prop}
    (h : ∀ path node, Ensures (read path node) P) (path : Path) (index : Nat) (nodes : List Node) :
    Ensures (items read path index nodes) fun as => ∀ a ∈ as, P a := by
  induction nodes generalizing index with
  | nil => exact ensures_pure (by simp)
  | cons node rest ih =>
    refine (h _ node).bind fun a ha => (ih (index + 1)).bind fun as has => ensures_pure ?_
    exact List.forall_mem_cons.mpr ⟨ha, has⟩

/-- What an item ensures holds of every item of a list. -/
theorem ensures_list {read : Place → Node → Reading α} {P : α → Prop} {depth : Nat}
    (h : ∀ path node, Ensures (read ⟨depth, path⟩ node) P) (path : Path) (node : Node) :
    Ensures (list read ⟨depth + 1, path⟩ node) fun as => ∀ a ∈ as, P a := by
  refine Ensures.located (ensures_bind fun node => ?_) path
  split
  · exact ensures_items h path 0 _
  · split
    · exact ensures_pure (by simp)
    · exact ensures_mismatch _ _
  · exact ensures_mismatch _ _

/-- A mapping ensures what its entries ensure, also when it has none. -/
theorem ensures_mapping {expected : Expected} {read : Nat → List (Node × Node) → Reading α}
    {P : α → Prop} {depth : Nat} (h : ∀ entries, Ensures (read depth entries) P)
    (hempty : Ensures (read (depth + 1) []) P) (path : Path) (node : Node) :
    Ensures (mapping expected read ⟨depth + 1, path⟩ node) P := by
  refine Ensures.located (ensures_bind fun node => ?_) path
  split
  · exact h _
  · split
    · exact hempty
    · exact ensures_mismatch _ _
  · exact ensures_mismatch _ _

end Provision.Yaml.Reading
