import Mathlib.Data.Int.Notation
import Mathlib.Data.Nat.Notation
import Provision.Yaml.Token.Basic

/-!
# Columns of blocks

The open block collections of a document stand at columns, the inner ones further in. A token closes
those further in than itself, and may open one at its own column. Where the outermost column is that
of the document as a whole, which is left of all tokens, a block that a token belongs to is in the end
at its own column.
-/

namespace Provision.Yaml

/-- The column of the innermost block, `-1` outside of all, and those of the blocks around it. -/
structure Indents where
  inner : ℤ
  outer : List ℤ

namespace Indents

/-- Closes the blocks that are further in than a column. -/
def closeFrom (column : ℤ) : ℤ → List ℤ → List Token × Indents
  | inner, [] => ([], ⟨inner, []⟩)
  | inner, next :: outer =>
    if column < inner then
      let (ends, indents) := closeFrom column next outer
      (.blockEnd :: ends, indents)
    else ([], ⟨inner, next :: outer⟩)

def close (column : ℤ) (i : Indents) : List Token × Indents :=
  closeFrom column i.inner i.outer

/-- Opens a block at a column, unless there is one already. -/
def begin (column : ℕ) (start : Token) (i : Indents) : List Token × Indents :=
  if column ≤ i.inner then ([], i) else ([start], ⟨column, i.inner :: i.outer⟩)

/-- Comes to a token at a column that belongs to a block of some kind. -/
def enter (column : ℕ) (start : Token) (i : Indents) : List Token × Indents :=
  let (ends, i) := i.close column
  let (starts, i) := i.begin column start
  (ends ++ starts, i)

theorem close_of_le {column : ℤ} {i : Indents} (h : i.inner ≤ column) : i.close column = ([], i) := by
  obtain ⟨inner, outer⟩ := i
  cases outer with
  | nil => rfl
  | cons next outer =>
    rw [close, closeFrom, if_neg (Int.not_lt.mpr h)]

/-- Whether the outermost column is that of the document as a whole. -/
def Grounded (i : Indents) : Prop :=
  -1 ∈ i.inner :: i.outer

/-- Outside of all blocks. -/
def outside : Indents :=
  ⟨-1, []⟩

theorem grounded_outside : outside.Grounded :=
  List.mem_singleton_self _

variable {i : Indents}

theorem grounded_closeFrom {inner : ℤ} {outer : List ℤ} (h : -1 ∈ inner :: outer) (column : ℕ) :
    (closeFrom column inner outer).2.Grounded ∧ (closeFrom column inner outer).2.inner ≤ column := by
  induction outer generalizing inner with
  | nil =>
    refine ⟨h, ?_⟩
    rw [← List.mem_singleton.mp h]
    show (-1 : ℤ) ≤ column
    omega
  | cons next outer ih =>
    rw [closeFrom]
    split
    · next hright =>
      apply ih
      rcases List.mem_cons.mp h with rfl | h
      · omega
      · exact h
    · next hleft => exact ⟨h, Int.not_lt.mp hleft⟩

theorem Grounded.close (h : i.Grounded) (column : ℕ) :
    (i.close column).2.Grounded ∧ (i.close column).2.inner ≤ column :=
  grounded_closeFrom h column

/-- Where a token belongs to a block, this is in the end at its column. -/
theorem Grounded.enter (h : i.Grounded) (column : ℕ) (start : Token) :
    (i.enter column start).2.Grounded ∧ (i.enter column start).2.inner = column := by
  obtain ⟨hgrounded, hle⟩ := h.close column
  show ((i.close column).2.begin column start).2.Grounded ∧
    ((i.close column).2.begin column start).2.inner = column
  rw [begin]
  split
  · next hge => exact ⟨hgrounded, Int.le_antisymm hle hge⟩
  · exact ⟨List.mem_cons_of_mem _ hgrounded, rfl⟩

end Indents

end Provision.Yaml
