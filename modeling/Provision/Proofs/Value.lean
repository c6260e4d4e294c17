import Mathlib.Data.Int.Notation
import Mathlib.Data.Nat.Notation
import Provision.Settings.Basic

/-!
# Values that documents yield

Of all values a document yields only those whose integers fit 64 bits, whose tables hold no key
twice and whose tags each stand over a value without one. How deep their collections nest is
bounded by where in the document they stand.
-/

namespace Provision

/-- Integers of at most 64 bits, with or without a sign. -/
def IsInt64 (n : ℤ) : Prop := -Nat.pow 2 63 ≤ n ∧ n < Nat.pow 2 64

namespace Value

/-- A value without a tag of its own. -/
def IsUntagged (value : Value) : Prop :=
  ∀ name inner, value ≠ .tagged name inner

/-- Whether no key of a table is the same as one before it. -/
def DistinctKeys (entries : List (Value × Value)) : Prop :=
  entries.Pairwise fun earlier later => earlier.1.same later.1 = false

/-- The values that a document can yield in a place where collections nest up to `depth` deep. -/
inductive Readable : (depth : ℕ) → Value → Prop
  | null {depth : ℕ} : Readable depth .null
  | bool {depth : ℕ} (b : Bool) : Readable depth (.bool b)
  | int {depth : ℕ} {n : ℤ} (h : IsInt64 n) : Readable depth (.int n)
  | float {depth : ℕ} (x : Double) : Readable depth (.float x)
  | text {depth : ℕ} (s : String) : Readable depth (.text s)
  | list {depth : ℕ} {items : List Value} (h : ∀ item ∈ items, Readable depth item) :
    Readable (depth + 1) (.list items)
  | table {depth : ℕ} {entries : List (Value × Value)} (hdistinct : DistinctKeys entries)
      (hkeys : ∀ entry ∈ entries, Readable depth entry.1)
      (hvalues : ∀ entry ∈ entries, Readable depth entry.2) : Readable (depth + 1) (.table entries)
  | tagged {depth : ℕ} (name : String) {value : Value} (huntagged : value.IsUntagged)
      (h : Readable depth value) : Readable depth (.tagged name value)

/-- What a shallower place yields a deeper one yields as well. -/
theorem Readable.mono {depth depth' : ℕ} {value : Value} (h : Readable depth value)
    (hle : depth ≤ depth') : Readable depth' value := by
  induction h generalizing depth' with
  | null => exact .null
  | bool b => exact .bool b
  | int h => exact .int h
  | float x => exact .float x
  | text s => exact .text s
  | list _ ih =>
    obtain ⟨d, rfl⟩ : ∃ d, depth' = d + 1 := ⟨depth' - 1, by omega⟩
    exact .list fun item hitem => ih item hitem (by omega)
  | table hdistinct _ _ ihkeys ihvalues =>
    obtain ⟨d, rfl⟩ : ∃ d, depth' = d + 1 := ⟨depth' - 1, by omega⟩
    exact .table hdistinct (fun entry he => ihkeys entry he (by omega)) fun entry he =>
      ihvalues entry he (by omega)
  | tagged name huntagged _ ih => exact .tagged name huntagged (ih hle)

/-- A value that an atom spells has neither parts nor a tag. -/
theorem readable_ofAtom? {atom : Atom} {value : Value} (h : ofAtom? atom = some value)
    (hint : ∀ n, atom = .int n → IsInt64 n) (depth : ℕ) :
    Readable depth value ∧ value.IsUntagged := by
  cases atom with
  | wideInt n => cases h
  | int n =>
    cases h
    exact ⟨.int (hint n rfl), by intro name inner hname; cases hname⟩
  | null =>
    cases h
    exact ⟨.null, by intro name inner hname; cases hname⟩
  | bool b =>
    cases h
    exact ⟨.bool b, by intro name inner hname; cases hname⟩
  | float x =>
    cases h
    exact ⟨.float x, by intro name inner hname; cases hname⟩
  | text s =>
    cases h
    exact ⟨.text s, by intro name inner hname; cases hname⟩

theorem isUntagged_list (items : List Value) : (list items).IsUntagged := by
  intro name inner h
  cases h

theorem isUntagged_table (entries : List (Value × Value)) : (table entries).IsUntagged := by
  intro name inner h
  cases h

/-- A table under construction, last entry first, takes one more entry with a key of its own. -/
theorem distinctKeys_reverse_cons {before : List (Value × Value)} {key value : Value}
    (h : DistinctKeys before.reverse) (hkey : hasKey before key = false) :
    DistinctKeys ((key, value) :: before).reverse := by
  unfold DistinctKeys at h ⊢
  rw [List.reverse_cons, List.pairwise_append]
  refine ⟨h, List.pairwise_singleton _ _, fun earlier hearlier later hlater => ?_⟩
  rw [List.mem_singleton.mp hlater]
  have hmem : earlier ∈ before := List.mem_reverse.mp hearlier
  exact Bool.eq_false_iff.mpr (List.any_eq_false.mp hkey earlier hmem)

/-- A readable table takes one more entry if its key is new and both parts are readable. -/
theorem Readable.table_cons {depth : ℕ} {before : List (Value × Value)} {key value : Value}
    (h : Readable (depth + 1) (.table before.reverse)) (hnew : hasKey before key = false)
    (hkey : Readable depth key) (hvalue : Readable depth value) :
    Readable (depth + 1) (.table ((key, value) :: before).reverse) := by
  cases h with
  | table hdistinct hkeys hvalues =>
    refine .table (distinctKeys_reverse_cons hdistinct hnew) ?_ ?_
    · rw [List.reverse_cons, List.forall_mem_append, List.forall_mem_singleton]
      exact ⟨hkeys, hkey⟩
    · rw [List.reverse_cons, List.forall_mem_append, List.forall_mem_singleton]
      exact ⟨hvalues, hvalue⟩

/-- Before the next entry of a table with distinct keys, its key is a new one. -/
theorem hasKey_of_distinctKeys {before rest : List (Value × Value)} {key value : Value}
    (h : DistinctKeys (before.reverse ++ (key, value) :: rest)) : hasKey before key = false := by
  refine List.any_eq_false.mpr fun earlier hearlier => ?_
  have hsame := (List.pairwise_append.mp h).2.2 earlier (List.mem_reverse.mpr hearlier)
    (key, value) List.mem_cons_self
  exact Bool.eq_false_iff.mp hsame

end Value

namespace Options

/-- The options that a document can yield: no name is there twice, and every value is one that a
document can yield. -/
structure Readable (depth : ℕ) (options : Options) : Prop where
  nodup : (options.map (·.1)).Nodup
  value : ∀ entry ∈ options, entry.2.Readable depth

variable {depth : ℕ} {options : Options} {name : String} {value : Value}

theorem readable_nil : Readable depth [] := ⟨List.nodup_nil, by simp⟩

/-- Setting an option that is there puts the value in its place. -/
theorem set_of_mem (h : name ∈ options.map (·.1)) :
    options.set name value =
      options.map fun entry => if entry.1 == name then (name, value) else entry := by
  obtain ⟨entry, hentry, hname⟩ := List.mem_map.mp h
  exact if_pos (List.any_eq_true.mpr ⟨entry, hentry, by simp [hname]⟩)

/-- Setting a new option puts it behind the others. -/
theorem set_of_not_mem (h : name ∉ options.map (·.1)) :
    options.set name value = options ++ [(name, value)] := by
  refine if_neg fun hany => h ?_
  obtain ⟨entry, hentry, hname⟩ := List.any_eq_true.mp hany
  exact List.mem_map.mpr ⟨entry, hentry, by simpa using hname⟩

/-- Setting a known name changes no name. -/
theorem map_set_of_mem (h : name ∈ options.map (·.1)) :
    (options.set name value).map (·.1) = options.map (·.1) := by
  rw [set_of_mem h, List.map_map]
  refine List.map_congr_left fun entry _ => ?_
  show (if entry.1 == name then (name, value) else entry).1 = entry.1
  split
  · next hname => exact (beq_iff_eq.mp hname).symm
  · rfl

/-- Options stay readable when a readable value is set. -/
theorem Readable.set (h : Readable depth options) (hvalue : value.Readable depth) :
    Readable depth (options.set name value) := by
  -- a name that is there keeps its place, a new one goes to the end
  by_cases hmem : name ∈ options.map (·.1)
  · refine ⟨by rw [map_set_of_mem hmem]; exact h.nodup, fun entry hentry => ?_⟩
    rw [set_of_mem hmem] at hentry
    obtain ⟨old, hold, rfl⟩ := List.mem_map.mp hentry
    split
    · exact hvalue
    · exact h.value old hold
  · rw [set_of_not_mem hmem]
    refine ⟨?_, fun entry hentry => ?_⟩
    · rw [List.map_append, List.nodup_append]
      refine ⟨h.nodup, List.pairwise_singleton _ _, fun other hother last hlast heq => ?_⟩
      rw [List.map_singleton, List.mem_singleton] at hlast
      rw [heq, hlast] at hother
      exact hmem hother
    · rcases List.mem_append.mp hentry with hentry | hentry
      · exact h.value entry hentry
      · rw [List.mem_singleton.mp hentry]
        exact hvalue

theorem Readable.mono {depth' : ℕ} (h : Readable depth options) (hle : depth ≤ depth') :
    Readable depth' options :=
  ⟨h.nodup, fun entry hentry => (h.value entry hentry).mono hle⟩

end Options

end Provision
