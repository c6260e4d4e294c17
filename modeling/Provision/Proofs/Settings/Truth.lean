import Provision.Proofs.Json.Reading
import Provision.Proofs.Yaml.Targets

/-!
# What counts as true

All but null and false counts as true. Which nodes are one of the two is for their text to say where
they are plain scalars without a tag, and for a tag of a basic type where they have one. Quotes make
a text of any scalar, and under a tag of the document's own a value is neither null nor false. In
JSON the two are words.
-/

namespace Provision

/-- Whether a value is neither null nor false. -/
def Value.countsTrue : Value → Bool
  | .null | .bool false => false
  | _ => true

namespace Yaml

def nullTexts : List String := ["~", "null", "Null", "NULL"]

def falseTexts : List String := ["false", "False", "FALSE"]

/-- Whether a text counts as true in a plain scalar without a tag. -/
def plainCountsTrue (text : String) : Bool :=
  !("" :: nullTexts ++ falseTexts).contains text

/-- Whether a scalar counts as true. A local tag whose octets spell no text is no tag. -/
def Scalar.countsTrue (s : Scalar) : Bool :=
  match s.tag with
  | none | some .illFormed => s.style != .plain || plainCountsTrue s.text
  | some .null => false
  | some .boolean => !falseTexts.contains s.text
  | some .integer | some .float | some .foreign | some (.own _) => true

/-- Whether a node counts as true. Collections do, with a tag or without one. -/
def Node.countsTrue : Node → Bool
  | .scalar _ s => s.countsTrue
  | _ => true

/-! ## Scalars -/

theorem contains_nullTexts (text : String) : nullTexts.contains text = isNull text := by
  simp [nullTexts, isNull, Bool.or_assoc]

theorem contains_falseTexts (text : String) :
    falseTexts.contains text = decide (bool? text = some false) := by
  have hcontains : falseTexts.contains text =
      (text = "false" || text = "False" || text = "FALSE") := by
    simp [falseTexts, Bool.or_assoc]
  unfold bool?
  split
  · next htrue =>
    -- the texts of true are none of false
    simp only [Bool.or_eq_true, decide_eq_true_eq] at htrue
    rcases htrue with (rfl | rfl) | rfl <;> decide
  · rw [hcontains]
    split
    · next hfalse => exact hfalse
    · next hfalse => exact Bool.eq_false_iff.mpr hfalse

/-- A plain scalar counts as true unless it is empty, null or false. -/
theorem plainCountsTrue_eq (text : String) : plainCountsTrue text =
    !(text = "" || isNull text || decide (bool? text = some false)) := by
  unfold plainCountsTrue
  rw [List.cons_append, List.contains_cons, List.contains_append, contains_nullTexts,
    contains_falseTexts, beq_eq_decide, Bool.or_assoc]

/-- Every integer counts as true, zero included. -/
theorem countsTrue_of_integer {text : List Char} {atom : Atom} {value : Value}
    (h : (integer? text).bind integerAtom? = some atom) (hvalue : Value.ofAtom? atom = some value) :
    value.countsTrue = true := by
  obtain ⟨n, -, hatom⟩ := Option.bind_eq_some_iff.mp h
  unfold integerAtom? at hatom
  split at hatom
  · cases hatom
    cases hvalue
    rfl
  · split at hatom
    · cases hatom
      cases hvalue
    · cases hatom

/-- A plain scalar without a tag denotes null, a boolean, or something that counts as true. -/
theorem countsTrue_of_plainAtom {text : String} {value : Value}
    (h : Value.ofAtom? (plainAtom text) = some value) :
    value.countsTrue = plainCountsTrue text := by
  rw [plainCountsTrue_eq]
  unfold plainAtom at h
  split at h
  · next hnull =>
    cases h
    rw [hnull]
    rfl
  · next hnull =>
    rw [Bool.eq_false_iff.mpr hnull, Bool.false_or]
    split at h
    · next b hbool =>
      cases h
      rw [hbool]
      cases b <;> rfl
    · next hbool =>
      rw [hbool]
      -- what is neither null nor a word for false or true counts as true
      show value.countsTrue = true
      split at h
      · next atom hatom => exact countsTrue_of_integer hatom h
      · split at h
        · cases h
          rfl
        · cases h
          rfl

/-- An untagged scalar counts as true if it is quoted or its text does. -/
theorem countsTrue_of_untagged {s : Scalar} {value : Value}
    (h : Value.ofAtom? s.untagged = some value) :
    value.countsTrue = (s.style != .plain || plainCountsTrue s.text) := by
  unfold Scalar.untagged at h
  split at h
  · next hplain =>
    rw [hplain, countsTrue_of_plainAtom h]
    rfl
  · next hstyle =>
    cases h
    rw [bne_iff_ne.mpr hstyle]
    rfl

/-- A scalar under no tag of the document's own denotes what counts as true just when it does. -/
theorem countsTrue_of_atom {s : Scalar} (hown : ∀ name, s.tag ≠ some (.own name)) {atom : Atom}
    (hatom : s.atom = .ok atom) {value : Value} (h : Value.ofAtom? atom = some value) :
    value.countsTrue = s.countsTrue := by
  unfold Scalar.atom at hatom
  unfold Scalar.countsTrue
  cases htag : s.tag with
  | none =>
    rw [htag] at hatom
    cases hatom
    exact countsTrue_of_untagged h
  | some tag =>
    rw [htag] at hatom
    -- a standard tag says how the text is read; a text that it cannot read has no atom
    cases tag with
    | own name => exact absurd htag (hown name)
    | illFormed =>
      cases hatom
      exact countsTrue_of_untagged h
    | foreign =>
      cases hatom
      cases h
      rfl
    | null =>
      dsimp only at hatom
      split at hatom
      · cases hatom
        cases h
        rfl
      · cases hatom
    | boolean =>
      dsimp only at hatom ⊢
      split at hatom
      · next b hbool =>
        cases hatom
        cases h
        rw [contains_falseTexts, hbool]
        cases b <;> rfl
      · cases hatom
    | integer =>
      dsimp only at hatom
      split at hatom
      · next hinteger =>
        cases hatom
        exact countsTrue_of_integer hinteger h
      · cases hatom
    | float =>
      dsimp only at hatom
      split at hatom
      · cases hatom
        cases h
        rfl
      · cases hatom

/-! ## Nodes -/

namespace Reading

/-- What a scalar is read as counts as true exactly if the scalar does. -/
theorem ensures_scalarValue_countsTrue {s : Scalar} (hown : ∀ name, s.tag ≠ some (.own name)) :
    Ensures (scalarValue s) fun value => value.countsTrue = s.countsTrue := by
  unfold scalarValue
  split
  · exact ensures_throw _
  · next atom hatom =>
    split
    · next value hvalue => exact ensures_pure (countsTrue_of_atom hown hatom hvalue)
    · exact ensures_throw _

variable {d : Document}

/-- A tag never makes a value count as false. -/
theorem countsTrue_tagged {value : Value} (h : value.countsTrue = true) (tag : Option Tag) :
    (tagged tag value).countsTrue = true := by
  unfold tagged
  split
  · rfl
  · exact h

/-- What a node is read as counts as true exactly if the node it leads to does. -/
theorem ensuresIn_valueBy_countsTrue (inner : Option (Path → Node → Reading Value)) (path : Path)
    (node : Node) : EnsuresIn d (valueBy inner path node) fun value =>
      ∃ target, d.target? node = some target ∧ value.countsTrue = target.countsTrue := by
  refine ((ensuresIn_resolve node).bind fun target htarget => ?_).located path
  rw [htarget]
  split
  · next anchor s =>
    split
    · next name hname =>
      refine (ensures_scalarValue_countsTrue (by simp)).within d |>.map fun value _ => ⟨_, rfl, ?_⟩
      show (Value.tagged name value).countsTrue = s.countsTrue
      unfold Scalar.countsTrue
      rw [hname]
      rfl
    · next hown =>
      exact ((ensures_scalarValue_countsTrue hown).within d).imp
        fun value hvalue => ⟨_, rfl, hvalue⟩
  · next anchor tag nodes =>
    refine ensuresIn_bind fun read => ensuresIn_bind fun values => ensuresIn_pure ⟨_, rfl, ?_⟩
    exact countsTrue_tagged rfl tag
  · next anchor tag entries =>
    refine ensuresIn_bind fun read => ensuresIn_bind fun entries => ensuresIn_pure ⟨_, rfl, ?_⟩
    exact countsTrue_tagged rfl tag
  · exact ensures_brokenOff.within d
  · exact ensures_brokenOff.within d

/-- At every depth a value counts as true exactly if its node does. -/
theorem ensuresIn_value_countsTrue (depth : ℕ) (path : Path) (node : Node) :
    EnsuresIn d (value depth path node) fun value =>
      ∃ target, d.target? node = some target ∧ value.countsTrue = target.countsTrue := by
  cases depth with
  | zero => exact ensuresIn_valueBy_countsTrue none path node
  | succ depth => exact ensuresIn_valueBy_countsTrue (some _) path node

/-- Nothing is read of a node that is null without a tag or under the one of null, and else a value
that counts as true just when the node does. -/
theorem ensuresIn_optional_countsTrue (hd : d.Settled) {read : Node → Reading Value}
    (h : ∀ node, EnsuresIn d (read node) fun value =>
      ∃ target, d.target? node = some target ∧ value.countsTrue = target.countsTrue)
    (node : Node) : EnsuresIn d (optional read node) fun value? =>
      ∃ target, d.target? node = some target ∧ value?.any Value.countsTrue = target.countsTrue := by
  refine (ensuresIn_resolve node).bind fun target htarget => ?_
  rw [htarget]
  have hself : d.target? target = some target := Document.target?_of_isTarget (hd.isTarget htarget)
  have hread : EnsuresIn d (some <$> read target) fun value? =>
      ∃ target', some target = some target' ∧ value?.any Value.countsTrue = target'.countsTrue := by
    refine (h target).map fun value hvalue => ?_
    rw [hself] at hvalue
    exact hvalue
  cases target with
  | scalar anchor s =>
    -- reading nothing is right of a scalar that does not count as true
    have hnone : s.countsTrue = false → EnsuresIn d (pure none) fun value? : Option Value =>
        ∃ target, some (Node.scalar anchor s) = some target ∧
          value?.any Value.countsTrue = target.countsTrue :=
      fun hfalse => ensuresIn_pure ⟨_, rfl, hfalse.symm⟩
    unfold Scalar.countsTrue at hnone
    dsimp only
    split
    · exact hread
    · next hplain =>
      have hstyle : (s.style != .plain) = false := by simpa using hplain
      split
      · next htag =>
        split
        · exact hnone (by rw [htag])
        · exact (ensures_throw _).within d
      · exact hread
      · next htag =>
        split
        · next hnull =>
          refine hnone ?_
          rw [htag, hstyle, plainCountsTrue_eq, hnull]
          rfl
        · exact hread
  | sequence anchor tag nodes => exact hread
  | mapping anchor tag entries => exact hread
  | «alias» id => exact absurd rfl (hd.isTarget htarget id)
  | cut => exact ensures_brokenOff.within d

/-- The truth of a node is whether it counts as true. -/
theorem ensuresIn_truth (hd : d.Settled) (place : Place) (node : Node) :
    EnsuresIn d (truth place node) fun b =>
      ∃ target, d.target? node = some target ∧ b = target.countsTrue := by
  refine (ensuresIn_optional_countsTrue hd (ensuresIn_value_countsTrue _ _) node).bind ?_
  rintro value? ⟨target, htarget, hvalue⟩
  have hpure : EnsuresIn d (pure (value?.any Value.countsTrue)) fun b =>
      ∃ target, d.target? node = some target ∧ b = target.countsTrue :=
    ensuresIn_pure ⟨target, htarget, hvalue⟩
  rcases value? with _ | value
  · exact hpure
  · cases value with
    | bool b => cases b <;> exact hpure
    | _ => exact hpure

end Reading

end Yaml

/-! ## Sources -/

namespace Json

/-- Whether a source counts as true. -/
def Source.countsTrue : Source → Bool
  | .null | .bool false => false
  | _ => true

namespace Reading

variable {source : Source}

/-- What a source is read as counts as true exactly if the source does. -/
theorem ensures_valueBy_countsTrue (inner : Option (Source → Reading Value))
    (h : source.Scanned) :
    Ensures (valueBy inner source) fun value => value.countsTrue = source.countsTrue := by
  cases h with
  | null => exact ensures_pure rfl
  | bool b => cases b <;> exact ensures_pure rfl
  | number hnumber =>
    cases hnumber with
    | beyond => exact ensures_throw _
    | int _ => exact ensures_pure rfl
    | float x => exact ensures_pure rfl
  | text spelled => exact ensures_bind fun s => ensures_pure rfl
  | list _ =>
    cases inner with
    | none => exact ensures_throw _
    | some read => exact ensures_bind fun values => ensures_pure rfl
  | table _ =>
    cases inner with
    | none => exact ensures_throw _
    | some read => exact ensures_bind fun entries => ensures_pure rfl
  | cut read skipped afterComma => exact ensures_throw _

/-- The truth of a source is whether it counts as true. -/
theorem ensures_truth (depth : ℕ) (h : source.Scanned) :
    Ensures (truth depth source) fun b => b = source.countsTrue := by
  have hvalue : Ensures (value depth source) fun value => value.countsTrue = source.countsTrue := by
    cases depth with
    | zero => exact ensures_valueBy_countsTrue none h
    | succ depth => exact ensures_valueBy_countsTrue (some _) h
  have hoptional : Ensures (optional (value depth) source) fun value? =>
      value?.any Value.countsTrue = source.countsTrue := by
    unfold optional
    split
    · exact ensures_pure rfl
    · rw [map_eq_pure_bind]
      exact hvalue.bind fun value hvalue => ensures_pure hvalue
  refine hoptional.bind fun value? hvalue => ?_
  have hpure : Ensures (pure (value?.any Value.countsTrue)) fun b => b = source.countsTrue :=
    ensures_pure hvalue
  rcases value? with _ | value
  · exact hpure
  -- a boolean is taken as it is, everything else by whether it counts as true
  · cases value with
    | bool b => cases b <;> exact hpure
    | _ => exact hpure

end Reading

end Json

end Provision
