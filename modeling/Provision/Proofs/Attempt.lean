import Mathlib.Data.List.Forall2

/-!
# Attempts

What the result of an attempt says about its parts. An attempt made of two fails with the error of
the first one that does; one made for every entry of a list fails with the error of the first entry
that does, and otherwise gives one value for each entry.
-/

namespace Provision.Attempt

variable {ε α β : Type}

theorem error_bind (e : ε) (next : α → Except ε β) : (Except.error e >>= next) = .error e := rfl

theorem ok_bind (a : α) (next : α → Except ε β) : (Except.ok a >>= next) = next a := rfl

/-- A sequence succeeds exactly if both of its steps do. -/
theorem bind_eq_ok_iff {first : Except ε α} {next : α → Except ε β} {b : β} :
    (first >>= next) = .ok b ↔ ∃ a, first = .ok a ∧ next a = .ok b := by
  rcases first with e | a
  · rw [error_bind]
    exact ⟨nofun, nofun⟩
  · rw [ok_bind]
    constructor
    · intro h
      exact ⟨a, rfl, h⟩
    · intro h
      obtain ⟨_, ⟨⟩, h⟩ := h
      exact h

/-- A sequence fails with the fault of its first step, or with that of its second one. -/
theorem bind_eq_error_iff {first : Except ε α} {next : α → Except ε β} {e : ε} :
    (first >>= next) = .error e ↔
      first = .error e ∨ ∃ a, first = .ok a ∧ next a = .error e := by
  rcases first with e' | a
  · rw [error_bind]
    constructor
    · intro h
      cases h
      exact .inl rfl
    · intro h
      rcases h with ⟨⟨⟩⟩ | ⟨_, h, -⟩
      · rfl
      · cases h
  · rw [ok_bind]
    constructor
    · intro h
      exact .inr ⟨a, rfl, h⟩
    · intro h
      rcases h with h | ⟨_, ⟨⟩, h⟩
      · cases h
      · exact h

/-- What is made of a value at the end of an attempt cannot make it fail. -/
theorem bind_ok_eq_error_iff {first : Except ε α} {f : α → β} {e : ε} :
    (first >>= fun a => .ok (f a)) = .error e ↔ first = .error e := by
  rw [bind_eq_error_iff]
  exact or_iff_left fun ⟨_, _, h⟩ => nomatch h

/-- Without the faults, a sequence of attempts is a sequence of options. -/
theorem toOption_bind (first : Except ε α) (next : α → Except ε β) :
    (first >>= next).toOption = first.toOption.bind fun a => (next a).toOption := by
  rcases first with e | a
  · rfl
  · rfl

theorem toOption_eq_some_iff {attempt : Except ε α} {a : α} :
    attempt.toOption = some a ↔ attempt = .ok a := by
  rcases attempt with e | b
  · exact ⟨nofun, nofun⟩
  · exact ⟨fun h => congrArg Except.ok (Option.some.inj h), fun h => by rw [h]; rfl⟩

/-- An attempt either gives a value or fails. -/
theorem exists_eq_ok_of_forall_ne_error {attempt : Except ε α} (h : ∀ e, attempt ≠ .error e) :
    ∃ a, attempt = .ok a := by
  rcases attempt with e | a
  · exact absurd rfl (h e)
  · exact ⟨a, rfl⟩

theorem exists_eq_ok_of_isOk {attempt : Except ε α} (h : attempt.isOk = true) :
    ∃ a, attempt = .ok a := by
  rcases attempt with e | a
  · cases h
  · exact ⟨a, rfl⟩

/-- An attempt on every entry succeeds exactly if each one does, and gives what each one gives. -/
theorem mapM_eq_ok_iff {f : α → Except ε β} {xs : List α} {ys : List β} :
    xs.mapM f = .ok ys ↔ List.Forall₂ (fun x y => f x = .ok y) xs ys := by
  induction xs generalizing ys with
  | nil =>
    rw [List.mapM_nil, List.forall₂_nil_left_iff]
    exact ⟨fun h => (Except.ok.inj h).symm, fun h => h ▸ rfl⟩
  | cons x xs ih =>
    rw [List.mapM_cons, bind_eq_ok_iff, List.forall₂_cons_left_iff]
    constructor
    · intro h
      obtain ⟨y, hy, h⟩ := h
      obtain ⟨rest, hrest, h⟩ := bind_eq_ok_iff.mp h
      exact ⟨y, rest, hy, ih.mp hrest, (Except.ok.inj h).symm⟩
    · intro h
      obtain ⟨y, rest, hy, hrest, rfl⟩ := h
      exact ⟨y, hy, bind_eq_ok_iff.mpr ⟨rest, ih.mpr hrest, rfl⟩⟩

/-- A list of attempts fails with the error of the first one that fails. -/
theorem mapM_eq_error_iff {f : α → Except ε β} {xs : List α} {e : ε} :
    xs.mapM f = .error e ↔ ∃ x, xs.find? (fun x => !(f x).isOk) = some x ∧ f x = .error e := by
  induction xs with
  | nil =>
    constructor
    · intro h
      cases h
    · intro h
      obtain ⟨x, hx, -⟩ := h
      cases hx
  | cons x xs ih =>
    rw [List.mapM_cons, List.find?_cons]
    rcases hx : f x with e' | y
    · -- the head is the first one that fails
      rw [error_bind]
      constructor
      · intro h
        cases h
        exact ⟨x, rfl, hx⟩
      · intro h
        obtain ⟨_, ⟨⟩, he⟩ := h
        rw [hx] at he
        cases he
        rfl
    · -- the head succeeds, so the tail decides
      exact bind_ok_eq_error_iff.trans ih

/-! ## Two attempts -/

/-- Whether two attempts fail alike or both give data, which are in a relation. -/
inductive Rel (S : α → β → Prop) (attempt : Except ε α) (attempt' : Except ε β) : Prop
  | ok {a : α} {b : β} (h : attempt = .ok a) (h' : attempt' = .ok b) (hS : S a b)
  | error {e : ε} (h : attempt = .error e) (h' : attempt' = .error e)

namespace Rel

variable {γ δ : Type} {S : α → β → Prop} {T : γ → δ → Prop} {attempt : Except ε α}
  {attempt' : Except ε β}

theorem imp {S' : α → β → Prop} (h : Rel S attempt attempt') (himp : ∀ a b, S a b → S' a b) :
    Rel S' attempt attempt' := by
  cases h with
  | ok h h' hS => exact .ok h h' (himp _ _ hS)
  | error h h' => exact .error h h'

theorem bind {next : α → Except ε γ} {next' : β → Except ε δ} (h : Rel S attempt attempt')
    (hnext : ∀ a b, S a b → Rel T (next a) (next' b)) :
    Rel T (attempt >>= next) (attempt' >>= next') := by
  cases h with
  | ok h h' hS =>
    rw [h, h']
    exact hnext _ _ hS
  | error h h' =>
    rw [h, h']
    exact .error rfl rfl

theorem refl {S : α → α → Prop} (hS : ∀ a, S a a) (attempt : Except ε α) :
    Rel S attempt attempt := by
  rcases attempt with e | a
  · exact .error rfl rfl
  · exact .ok rfl rfl (hS a)

/-- Entry by entry related attempts give entry by entry related results. -/
theorem mapM {f : α → Except ε γ} {f' : β → Except ε δ} {as : List α} {bs : List β}
    (h : List.Forall₂ (fun a b => Rel T (f a) (f' b)) as bs) :
    Rel (List.Forall₂ T) (as.mapM f) (bs.mapM f') := by
  induction h with
  | nil => exact .ok rfl rfl .nil
  | cons hhead _ ih =>
    rw [List.mapM_cons, List.mapM_cons]
    exact hhead.bind fun c d hT => ih.bind fun cs ds hall => .ok rfl rfl (.cons hT hall)

/-- Attempts that give the same or fail alike are the same attempt. -/
theorem eq {attempt attempt' : Except ε α} (h : Rel (· = ·) attempt attempt') :
    attempt = attempt' := by
  cases h with
  | ok h h' hS => rw [h, h', hS]
  | error h h' => rw [h, h']

end Rel

end Provision.Attempt
