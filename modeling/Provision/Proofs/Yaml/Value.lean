import Provision.Proofs.Yaml.Reading
import Provision.Proofs.Yaml.Written

/-!
# Values in YAML

A reading of free values gives only readable ones, and from the nodes that a readable value is
written as it gives that value back (`yields_value`). The same goes for options, and each kind of
single value is read back from the node it is written as.
-/

namespace Provision.Yaml.Reading

/-! ## What is read is readable -/

theorem ensures_scalarValue (s : Scalar) (depth : ℕ) :
    Ensures (scalarValue s) fun value => value.Readable depth ∧ value.IsUntagged := by
  unfold scalarValue
  split
  · exact ensures_throw _
  · next atom hatom =>
    split
    · next value hvalue =>
      refine ensures_pure (Value.readable_ofAtom? hvalue (fun n hn => ?_) depth)
      rw [hn] at hatom
      exact isInt64_of_atom hatom
    · exact ensures_throw _

/-- The entries of a table are readable and have distinct keys, with those before them. -/
theorem ensures_tableEntries {readKey : Node → Reading Value}
    {readValue : Path → Node → Reading Value} {depth : ℕ}
    (hkey : ∀ node, Ensures (readKey node) (Value.Readable depth))
    (hvalue : ∀ path node, Ensures (readValue path node) (Value.Readable depth)) (path : Path)
    (nodes : List (Node × Node)) {before : List (Value × Value)}
    (hbefore : Value.Readable (depth + 1) (.table before.reverse)) :
    Ensures (tableEntries readKey readValue path nodes before) fun entries =>
      Value.Readable (depth + 1) (.table entries) := by
  induction nodes generalizing before with
  | nil => exact ensures_pure hbefore
  | cons entry rest ih =>
    obtain ⟨keyNode, node⟩ := entry
    refine (hkey keyNode).bind fun key hkey => ?_
    split
    · exact ensures_throw_bind
    · next hnew =>
      refine (hvalue _ node).bind fun value hvalue => ih ?_
      exact hbefore.table_cons (Bool.eq_false_iff.mpr hnew) hkey hvalue

theorem readable_tagged {depth : ℕ} {value : Value} (h : value.Readable depth)
    (huntagged : value.IsUntagged) (tag : Option Tag) : (tagged tag value).Readable depth := by
  unfold tagged
  split
  · exact .tagged _ huntagged h
  · exact h

/-- What is read with parts one level down is readable one level up; without, there are no parts. -/
theorem ensures_valueBy {inner : Option (Path → Node → Reading Value)} {depth : ℕ}
    (h : ∀ read, inner = some read → ∃ below, depth = below + 1 ∧
      ∀ path node, Ensures (read path node) (Value.Readable below)) (path : Path) (node : Node) :
    Ensures (valueBy inner path node) (Value.Readable depth) := by
  refine Ensures.located (ensures_bind fun node => ?_) path
  split
  · -- a tag of the document's own stays, and the scalar under it has no other
    split
    · exact (ensures_scalarValue _ depth).map fun value hvalue => .tagged _ hvalue.2 hvalue.1
    · exact (ensures_scalarValue _ depth).imp fun value hvalue => hvalue.1
  · next tag nodes =>
    cases inner with
    | none => exact ensures_throw_bind
    | some read =>
      obtain ⟨below, rfl, hread⟩ := h read rfl
      refine ensures_pure_bind ((ensures_items hread path 0 nodes).bind fun items hitems =>
        ensures_pure ?_)
      exact readable_tagged (.list hitems) (Value.isUntagged_list items) tag
  · next tag entries =>
    cases inner with
    | none => exact ensures_throw_bind
    | some read =>
      obtain ⟨below, rfl, hread⟩ := h read rfl
      have hempty : Value.Readable (below + 1) (.table ([] : List (Value × Value)).reverse) :=
        .table List.Pairwise.nil (by simp) (by simp)
      refine ensures_pure_bind
        ((ensures_tableEntries (hread path) hread path entries hempty).bind fun entries hentries =>
          ensures_pure ?_)
      exact readable_tagged hentries (Value.isUntagged_table entries) tag
  all_goals exact ensures_brokenOff

/-- The values of a document are readable. -/
theorem ensures_value (depth : ℕ) (path : Path) (node : Node) :
    Ensures (value depth path node) (Value.Readable depth) := by
  induction depth generalizing path node with
  | zero => exact ensures_valueBy (fun read hread => by cases hread) path node
  | succ depth ih =>
    refine ensures_valueBy (fun read hread => ⟨depth, rfl, ?_⟩) path node
    cases hread
    exact ih

theorem ensures_optionEntries {depth : ℕ} (path : Path) (nodes : List (Node × Node))
    {options : Options} (h : options.Readable depth) :
    Ensures (optionEntries depth path nodes options) (Options.Readable depth) := by
  induction nodes generalizing options with
  | nil => exact ensures_pure h
  | cons entry rest ih =>
    refine ensures_bind fun name => (ensures_value depth _ _).bind fun value hvalue => ?_
    exact ih (h.set hvalue)

/-- The options of a document are readable. -/
theorem ensures_options (depth : ℕ) (path : Path) (node : Node) :
    Ensures (options ⟨depth + 1, path⟩ node) (Options.Readable depth) :=
  ensures_mapping (fun entries => ensures_optionEntries path entries Options.readable_nil)
    (ensures_pure Options.readable_nil) path node

/-! ## What is written is read back -/

theorem yields_scalarValue {s : Scalar} {atom : Atom} {value : Value} (htag : s.tag = none)
    (hatom : s.untagged = atom) (hvalue : Value.ofAtom? atom = some value) :
    Yields (scalarValue s) value := by
  have hs : s.atom = .ok atom := by
    unfold Scalar.atom
    rw [htag, ← hatom]
  unfold scalarValue
  rw [hs]
  dsimp only
  rw [hvalue]
  exact yields_pure value

/-- The tag of a value's node: none, or one of the document's own over an untagged value. -/
def IsValueTag (tag : Option Tag) (value : Value) : Prop :=
  tag = none ∨ (∃ name, tag = some (.own name)) ∧ value.IsUntagged

/-- A scalar yields the value it denotes, under its tag. -/
theorem yields_value_scalar {s : Scalar} {atom : Atom} {value : Value}
    (htag : IsValueTag s.tag value) (hatom : s.untagged = atom)
    (hvalue : Value.ofAtom? atom = some value) (depth : ℕ) (path : Path) :
    Yields (Reading.value depth path (.scalar none s)) (tagged s.tag value) := by
  obtain ⟨text, tag, style⟩ := s
  have hscalar : ∀ inner, Yields (valueBy inner path (.scalar none ⟨text, tag, style⟩))
      (tagged tag value) := by
    intro inner
    refine Yields.located ((yields_resolve (by simp)).bind ?_) path
    rcases htag with rfl | ⟨⟨name, rfl⟩, -⟩
    · exact yields_scalarValue rfl hatom hvalue
    · -- the tag is no part of what the scalar under it denotes
      have hinner := yields_scalarValue (s := ⟨text, none, style⟩) rfl hatom hvalue
      exact hinner.map (Value.tagged name)
  cases depth with
  | zero => exact hscalar none
  | succ depth => exact hscalar _

/-- The scalar of an atom yields its value, under a tag or not. -/
theorem yields_atom (atom : Atom) {value : Value} (h : Value.ofAtom? atom = some value)
    (hint : ∀ n, atom = .int n → IsInt64 n) {tag : Option Tag} (htag : IsValueTag tag value)
    {node : Node} (hnode : Node.ofValue? tag value = some node) (inKey : Bool) (depth : ℕ)
    (path : Path) :
    Yields (Reading.value depth path (node.asWritten inKey)) (tagged tag value) := by
  obtain ⟨text, style, hofValue, hatom⟩ := exists_scalar h hint
  rw [hofValue tag] at hnode
  cases hnode
  exact yields_value_scalar htag (hatom tag inKey) h depth path

/-- The nodes of items yield what the items are written for. -/
theorem yields_writtenItems {α : Type} {toValue : α → Value} {read : Path → Node → Reading α}
    {as : List α} (h : ∀ a ∈ as, ∀ node, Node.ofValue? none (toValue a) = some node →
      ∀ path, Yields (read path (node.asWritten false)) a) {nodes : List Node}
    (hnodes : nodesOfItems? (as.map toValue) = some nodes) (path : Path) (index : ℕ) :
    Yields (Reading.items read path index (Node.itemsAsWritten nodes)) as := by
  induction as generalizing nodes index with
  | nil =>
    cases hnodes
    exact yields_pure []
  | cons a rest ih =>
    obtain ⟨ha, hrest⟩ := List.forall_mem_cons.mp h
    rw [List.map_cons] at hnodes
    unfold nodesOfItems? at hnodes
    obtain ⟨node, hnode, hnodes⟩ := Option.bind_eq_some_iff.mp hnodes
    obtain ⟨more, hmore, hnodes⟩ := Option.bind_eq_some_iff.mp hnodes
    cases hnodes
    exact (ha node hnode _).bind ((ih hrest hmore (index + 1)).bind (yields_pure _))

/-- The nodes of a table's entries yield the entries after those before. -/
theorem yields_writtenEntries (before : List (Value × Value)) {readKey : Node → Reading Value}
    {readValue : Path → Node → Reading Value} {entries : List (Value × Value)}
    (hkeys : ∀ entry ∈ entries, ∀ node, Node.ofValue? none entry.1 = some node →
      ∀ inKey, Yields (readKey (node.asWritten inKey)) entry.1)
    (hvalues : ∀ entry ∈ entries, ∀ node, Node.ofValue? none entry.2 = some node →
      ∀ path, Yields (readValue path (node.asWritten false)) entry.2)
    {nodes : List (Node × Node)} (hnodes : nodesOfEntries? entries = some nodes)
    (hdistinct : Value.DistinctKeys (before.reverse ++ entries)) (path : Path) :
    Yields (tableEntries readKey readValue path (Node.entriesAsWritten nodes) before)
      (before.reverse ++ entries) := by
  induction entries generalizing nodes before with
  | nil =>
    cases hnodes
    rw [List.append_nil]
    exact yields_pure before.reverse
  | cons entry rest ih =>
    obtain ⟨key, value⟩ := entry
    obtain ⟨hkey, hkeys⟩ := List.forall_mem_cons.mp hkeys
    obtain ⟨hvalue, hvalues⟩ := List.forall_mem_cons.mp hvalues
    obtain ⟨keyNode, node, more, hkeyNode, hnode, hmore, rfl⟩ :=
      exists_of_nodesOfEntries?_cons hnodes
    -- the entries read so far are kept last one first
    have hnew := Value.hasKey_of_distinctKeys hdistinct
    have hrest : before.reverse ++ (key, value) :: rest =
      ((key, value) :: before).reverse ++ rest := by simp
    rw [hrest] at hdistinct ⊢
    refine (hkey keyNode hkeyNode _).bind ?_
    rw [hnew]
    exact (hvalue node hnode _).bind (ih _ hkeys hvalues hmore hdistinct)

/-- A readable value is read back from the nodes it is written as, under its tag. -/
theorem yields_value {depth : ℕ} {value : Value} (h : value.Readable depth) {tag : Option Tag}
    (htag : IsValueTag tag value) {node : Node} (hnode : Node.ofValue? tag value = some node)
    (inKey : Bool) (path : Path) :
    Yields (Reading.value depth path (node.asWritten inKey)) (tagged tag value) := by
  induction h generalizing tag node inKey path with
  | null => exact yields_atom .null rfl (by simp) htag hnode inKey _ path
  | bool b => exact yields_atom (.bool b) rfl (by simp) htag hnode inKey _ path
  | int h => exact yields_atom (.int _) rfl (by intro n hn; cases hn; exact h) htag hnode inKey _ path
  | float x => exact yields_atom (.float x) rfl (by simp) htag hnode inKey _ path
  | text s => exact yields_atom (.text s) rfl (by simp) htag hnode inKey _ path
  | @list _ items h ih =>
    unfold Node.ofValue? at hnode
    obtain ⟨nodes, hnodes, rfl⟩ := Option.map_eq_some_iff.mp hnode
    rw [← List.map_id items] at hnodes
    have hitems := yields_writtenItems
      (fun item hitem node hnode => ih item hitem (.inl rfl) hnode false) hnodes path 0
    show Yields (valueBy (some _) path (.sequence none tag (Node.itemsAsWritten nodes))) _
    refine Yields.located ((yields_resolve (by simp)).bind ?_) path
    exact Yields.bind (yields_pure (Reading.value _)) (hitems.bind (yields_pure _))
  | table hdistinct hkeys hvalues ihkeys ihvalues =>
    -- a table with a lone key and no tag over it has no node
    rw [Node.ofValue?_table] at hnode
    split at hnode
    · cases hnode
    obtain ⟨nodes, hnodes, rfl⟩ := Option.map_eq_some_iff.mp hnode
    have hentries := yields_writtenEntries []
      (fun entry hentry node hnode inKey => ihkeys entry hentry (.inl rfl) hnode inKey path)
      (fun entry hentry node hnode => ihvalues entry hentry (.inl rfl) hnode false) hnodes
      hdistinct path
    show Yields (valueBy (some _) path (.mapping none tag (Node.entriesAsWritten nodes))) _
    refine Yields.located ((yields_resolve (by simp)).bind ?_) path
    exact Yields.bind (yields_pure (Reading.value _)) (hentries.bind (yields_pure _))
  | tagged name huntagged h ih =>
    unfold Node.ofValue? at hnode
    rcases htag with rfl | ⟨-, hinner⟩
    · exact ih (.inr ⟨⟨name, rfl⟩, huntagged⟩) hnode inKey path
    · exact absurd rfl (hinner name _)

/-! ## Options -/

/-- The node of a text yields the text wherever any scalar is one. -/
theorem yields_text {s : String} {node : Node} (hnode : Node.ofValue? none (.text s) = some node)
    (expected : Expected) (inKey : Bool) (path : Path) :
    Yields (text expected path (node.asWritten inKey)) s := by
  cases hnode
  exact Yields.located ((yields_resolve (by simp [Node.asWritten])).bind (yields_pure s)) path

/-- The nodes of options yield the options after those before. -/
theorem yields_optionEntries (before : Options) {depth : ℕ} {options : Options}
    (h : Options.Readable depth (before ++ options)) {nodes : List (Node × Node)}
    (hnodes : nodesOfEntries? (options.map fun (name, value) => (.text name, value)) = some nodes)
    (path : Path) :
    Yields (optionEntries depth path (Node.entriesAsWritten nodes) before) (before ++ options) := by
  induction options generalizing before nodes with
  | nil =>
    cases hnodes
    rw [List.append_nil]
    exact yields_pure before
  | cons entry rest ih =>
    obtain ⟨name, value⟩ := entry
    rw [List.map_cons] at hnodes
    obtain ⟨keyNode, node, more, hkeyNode, hnode, hmore, rfl⟩ :=
      exists_of_nodesOfEntries?_cons hnodes
    have hvalue : value.Readable depth := h.value (name, value) (by simp)
    have hnew : name ∉ before.map (·.1) := by
      have hnodup := h.nodup
      rw [List.map_append, List.nodup_append] at hnodup
      exact fun hmem => hnodup.2.2 name hmem name (by simp) rfl
    have hrest : before ++ (name, value) :: rest = before ++ [(name, value)] ++ rest := by simp
    rw [hrest] at h ⊢
    refine (yields_text hkeyNode .text _ path).bind ?_
    refine (yields_value hvalue (.inl rfl) hnode false _).bind ?_
    -- a name that is not there yet goes to the end
    show Yields (optionEntries depth path _ (before.set name value)) _
    rw [Options.set_of_not_mem hnew]
    exact ih _ h hmore

/-- Readable options are read back from the node they are written as. -/
theorem yields_options {depth : ℕ} {options : Options} (h : options.Readable depth) {node : Node}
    (hnode : Node.ofValue? none (.table (options.map fun (name, value) => (.text name, value))) =
      some node) (inKey : Bool) (path : Path) :
    Yields (Reading.options ⟨depth + 1, path⟩ (node.asWritten inKey)) options := by
  rw [Node.ofValue?_table] at hnode
  split at hnode
  · cases hnode
  obtain ⟨nodes, hnodes, rfl⟩ := Option.map_eq_some_iff.mp hnode
  have hentries := yields_optionEntries [] h hnodes path
  exact Yields.located ((yields_resolve (by simp [Node.asWritten])).bind hentries) path

/-! ## Single values -/

theorem yields_flag_plain (b : Bool) (path : Path) :
    Yields (flag path (.plain (if b then "true" else "false") none)) b := by
  refine Yields.located ((yields_resolve (by simp [Node.plain])).bind ?_) path
  cases b with
  | true => exact yields_pure true
  | false => exact yields_pure false

theorem yields_flag (b : Bool) {node : Node} (hnode : Node.ofValue? none (.bool b) = some node)
    (inKey : Bool) (path : Path) : Yields (flag path (node.asWritten inKey)) b := by
  cases hnode
  rw [Node.asWritten_plain (by cases b <;> decide)]
  exact yields_flag_plain b path

/-- The digits of a number of at most 64 bits are read as that number. -/
theorem unsigned64?_toString {n : ℕ} (h : n < Nat.pow 2 64) :
    unsigned64? (toString (n : ℤ)) = some n := by
  have hdigits : (toString (n : ℤ)).toList = Nat.toDigits 10 n := by
    rw [toList_toString_int, if_neg (by omega), List.nil_append, Int.natAbs_natCast]
  have hsign := head?_of_isDigit fun c hc => isDigit_toDigits n c (List.mem_of_mem_head? hc)
  unfold unsigned64?
  rw [hdigits]
  dsimp only
  split
  · next heq => exact absurd rfl (hsign '+' (by rw [heq]; rfl)).2
  · rw [natural?_toDigits, Option.filter_some, if_pos (decide_eq_true h)]

theorem yields_port_plain {n : ℕ} (h : n < Nat.pow 2 16) (path : Path) :
    Yields (port path (.plain (toString (n : ℤ)) none)) n.toUInt16 := by
  have hread := unsigned64?_toString (Nat.lt_trans h (by decide : _ < Nat.pow 2 64))
  have hmay : maySpell ⟨toString (n : ℤ), none, .plain⟩ .integer = true := rfl
  refine Yields.located ((yields_resolve (by simp [Node.plain])).bind ?_) path
  simp only [Node.plain, hread, hmay, if_true, if_pos h]
  exact yields_pure _

theorem yields_port (n : UInt16) {node : Node}
    (hnode : Node.ofValue? none (.int n.toNat) = some node) (inKey : Bool) (path : Path) :
    Yields (port path (node.asWritten inKey)) n := by
  cases hnode
  rw [Node.asWritten_plain (looksNumeric_int n.toNat).allowance_plain]
  have hread := yields_port_plain n.toNat_lt path
  have hsame : n.toNat.toUInt16 = n := UInt16.ofNat_toNat
  rwa [hsame] at hread

/-- A scalar without a tag is the content it denotes, at any depth. -/
theorem yields_content_scalar {s : Scalar} {atom : Atom} (htag : s.tag = none)
    (hatom : s.untagged = atom) (hwide : ∀ n, atom ≠ .wideInt n) (depth : ℕ) (path : Path)
    (anchor : Option ℕ) :
    Yields (content depth path (.scalar anchor s)) (some atom) := by
  have hs : s.atom = .ok atom := by
    unfold Scalar.atom
    rw [htag, ← hatom]
  have hcontent : ∀ inner, Yields (contentBy inner path (.scalar anchor s)) (some atom) := by
    intro inner
    refine Yields.located ((yields_resolve (by simp)).bind ?_) path
    dsimp only
    rw [htag, hs]
    refine (yields_pure ()).bind ?_
    split
    · next heq => cases heq
    · next n heq => exact absurd (Except.ok.inj heq) (hwide n)
    · next heq =>
      cases heq
      exact yields_pure _
  cases depth with
  | zero => exact hcontent none
  | succ depth => exact hcontent _

/-- The node of a text yields the text also where bare numbers and flags are texts too. -/
theorem yields_scalarText {s : String} {node : Node}
    (hnode : Node.ofValue? none (.text s) = some node) (inKey : Bool) (place : Place) :
    Yields (scalarText place (node.asWritten inKey)) s := by
  cases hnode
  exact (yields_content_scalar rfl (untagged_text s none inKey) (by simp) place.depth
    place.path none).bind (yields_pure s)

/-! ## Data that may be null -/

/-- A scalar that denotes something is not passed over as null. -/
theorem yields_optional_scalar {α : Type} {read : Node → Reading α} {s : Scalar} {a : α}
    (htag : s.tag = none) (hatom : s.untagged ≠ .null) (h : Yields (read (.scalar none s)) a) :
    Yields (optional read (.scalar none s)) (some a) := by
  refine (yields_resolve (by simp)).bind ?_
  dsimp only
  split
  · exact h.map some
  · next hplain =>
    -- a plain text that spells null would have denoted it
    have hblank : (s.text = "" || isNull s.text) = false := by
      refine Bool.eq_false_iff.mpr fun hblank => hatom ?_
      unfold Scalar.untagged plainAtom
      rw [if_pos (not_not.mp hplain), if_pos hblank]
    rw [htag]
    dsimp only
    rw [hblank]
    exact h.map some

/-- The node of an untagged value other than null is not passed over. -/
theorem yields_optional {α : Type} {read : Node → Reading α} {depth : ℕ} {value : Value} {a : α}
    (hvalue : value.Readable depth) (hnull : value ≠ .null) (htag : value.IsUntagged) {node : Node}
    (hnode : Node.ofValue? none value = some node) {inKey : Bool}
    (h : Yields (read (node.asWritten inKey)) a) :
    Yields (optional read (node.asWritten inKey)) (some a) := by
  -- a value other than null is never written as a null scalar
  have hscalar : ∀ atom, Value.ofAtom? atom = some value → (∀ n, atom = .int n → IsInt64 n) →
      Yields (optional read (node.asWritten inKey)) (some a) := by
    intro atom hatom hint
    obtain ⟨text, style, hofValue, huntagged⟩ := exists_scalar hatom hint
    rw [hofValue none] at hnode
    cases hnode
    refine yields_optional_scalar rfl ?_ h
    rw [huntagged none inKey]
    intro hatomNull
    rw [hatomNull] at hatom
    exact hnull (Option.some.inj hatom).symm
  cases hvalue with
  | null => exact absurd rfl hnull
  | bool b => exact hscalar (.bool b) rfl (by simp)
  | int hrange => exact hscalar (.int _) rfl (by intro n hn; cases hn; exact hrange)
  | float x => exact hscalar (.float x) rfl (by simp)
  | text s => exact hscalar (.text s) rfl (by simp)
  | list _ =>
    unfold Node.ofValue? at hnode
    obtain ⟨nodes, -, rfl⟩ := Option.map_eq_some_iff.mp hnode
    exact (yields_resolve (by simp [Node.asWritten])).bind (h.map some)
  | table _ _ _ =>
    rw [Node.ofValue?_table] at hnode
    split at hnode
    · cases hnode
    obtain ⟨nodes, -, rfl⟩ := Option.map_eq_some_iff.mp hnode
    exact (yields_resolve (by simp [Node.asWritten])).bind (h.map some)
  | tagged name _ _ => exact absurd rfl (htag name _)

end Provision.Yaml.Reading
