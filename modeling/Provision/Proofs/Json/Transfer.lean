import Provision.Proofs.Attempt
import Provision.Proofs.Json.Node
import Provision.Proofs.Json.Reading
import Provision.Proofs.Yaml.Value

/-!
# From JSON to YAML

What is read from a JSON source is read from its node in YAML as well. A reading transfers to one in
YAML when everything it gives the other yields; nothing is asked of the other where the first fails.
Collections in YAML nest one level deeper than those in JSON, so depth only ever grows on the way.
-/

namespace Provision.Json.Reading

open Yaml (Node Path)
open Yaml.Reading (Yields yields_pure yields_resolve)

variable {α β : Type}

/-- Whether everything that a reading gives is what a reading in YAML yields. -/
def Transfers (reading : Reading α) (reading' : Yaml.Reading α) : Prop :=
  Ensures reading (Yields reading')

section

variable {reading : Reading α} {reading' : Yaml.Reading α}

/-- A reading that gives nothing transfers to every other. -/
theorem Ensures.transfers (h : Ensures reading fun _ => False) : Transfers reading reading' :=
  fun a ha => (h a ha).elim

theorem Transfers.bind {f : α → Reading β} {f' : α → Yaml.Reading β}
    (h : Transfers reading reading') (hf : ∀ a, Transfers (f a) (f' a)) :
    Transfers (reading >>= f) (reading' >>= f') :=
  Ensures.bind h fun a ha b hb => ha.bind (hf a b hb)

/-- What YAML reads beforehand may differ. -/
theorem Transfers.yields_bind (h : Transfers reading reading') {first : Yaml.Reading β} {b : β}
    {f : β → Yaml.Reading α} (hfirst : Yields first b) (hf : f b = reading') :
    Transfers reading (first >>= f) :=
  fun a ha => hfirst.bind (hf ▸ h a ha)

theorem Transfers.map (h : Transfers reading reading') (f : α → β) :
    Transfers (f <$> reading) (f <$> reading') :=
  Ensures.map h fun _ ha => ha.map f

theorem Transfers.located (h : Transfers reading reading') (path : Path) :
    Transfers reading (Yaml.Reading.located path reading') :=
  fun a ha => (h a ha).located path

end

/-! ## Single values -/

variable {source : Source} {node : Node}

/-- A text is read from the quoted scalar as from the source. -/
theorem transfers_text (h : source.node? = some node) (path : Path) :
    Transfers (text source) (Yaml.Reading.text .text path node) := by
  unfold text
  split
  · next spelled =>
    cases spelled with
    | error cause => cases h
    | ok s =>
      cases h
      exact ensures_pure (Yaml.Reading.yields_text_scalar .text path none _)
  · exact ensures_mismatch .text _

/-- A flag is read from the plain scalar as from the source. -/
theorem transfers_flag (h : source.node? = some node) (path : Path) :
    Transfers (flag source) (Yaml.Reading.flag path node) := by
  unfold flag
  split
  · next b =>
    cases h
    exact ensures_pure (Yaml.Reading.yields_flag_plain b path)
  · exact ensures_mismatch .flag _

/-- A port is read from the plain scalar as from the source. -/
theorem transfers_port (h : source.node? = some node) (path : Path) :
    Transfers (port source) (Yaml.Reading.port path node) := by
  unfold port
  split
  · next n =>
    obtain ⟨-, rfl⟩ := Source.node?_int h
    split
    · next hport =>
      obtain ⟨m, rfl⟩ := Int.eq_ofNat_of_zero_le hport.1
      exact ensures_pure (Yaml.Reading.yields_port_plain (by omega) path)
    · exact ensures_throw _
  · exact ensures_mismatch .port _

theorem optional_of_ne_null {read : Source → Reading α} (h : source ≠ .null) :
    optional read source = some <$> read source := by
  unfold optional
  split
  · exact absurd rfl h
  · rfl

/-- Null is a plain word in YAML too, and no other node of a source is taken for it. -/
theorem transfers_optional (h : source.node? = some node) {read : Source → Reading α}
    {read' : Node → Yaml.Reading α} (hread : Transfers (read source) (read' node)) :
    Transfers (optional read source) (Yaml.Reading.optional read' node) := by
  by_cases hnull : source = .null
  · subst hnull
    cases h
    refine ensures_pure ((yields_resolve (by simp [Node.plain])).bind ?_)
    exact yields_pure none
  · rw [optional_of_ne_null hnull]
    intro b hb
    obtain ⟨a, ha, rfl⟩ : ∃ a, read source = .ok a ∧ some a = b := by
      rw [map_eq_pure_bind] at hb
      obtain ⟨a, ha, hb⟩ := Attempt.bind_eq_ok_iff.mp hb
      exact ⟨a, ha, Except.ok.inj hb⟩
    have hyields := hread a ha
    cases Source.spelling_of_node? h with
    | scalar hfound htag hatom hwide hatomNull =>
      refine Yaml.Reading.yields_optional_scalar htag (fun heq => hnull (hatomNull ?_)) hyields
      rw [← hatom, heq]
    | list _ => exact (yields_resolve (by simp)).bind (hyields.map some)
    | table _ => exact (yields_resolve (by simp)).bind (hyields.map some)

/-! ## Collections -/

/-- Items are read from the nodes as from the sources. -/
theorem transfers_items {read : Source → Reading α} {read' : Path → Node → Yaml.Reading α}
    {sources : List Source} {nodes : List Node} (hnodes : Source.itemNodes? sources = some nodes)
    (h : ∀ source ∈ sources, ∀ node, source.node? = some node →
      ∀ path, Transfers (read source) (read' path node)) (path : Path) (index : ℕ) :
    Transfers (sources.mapM read) (Yaml.Reading.items read' path index nodes) := by
  induction sources generalizing nodes index with
  | nil =>
    cases hnodes
    exact ensures_pure (yields_pure [])
  | cons source rest ih =>
    obtain ⟨node, more, hnode, hmore, rfl⟩ := Source.exists_of_itemNodes?_cons hnodes
    obtain ⟨hsource, hrest⟩ := List.forall_mem_cons.mp h
    rw [List.mapM_cons]
    exact (hsource node hnode _).bind fun a => (ih hmore hrest (index + 1)).bind fun as =>
      ensures_pure (yields_pure (a :: as))

/-- A table's entries are read at one level below it. -/
theorem transfers_mapping {reading : Reading α} {expected : Expected}
    {read : ℕ → List (Node × Node) → Yaml.Reading α} {depth : ℕ} {entries : List (Node × Node)}
    (h : Transfers reading (read depth entries)) (path : Path) :
    Transfers reading
      (Yaml.Reading.mapping expected read ⟨depth + 1, path⟩ (.mapping none none entries)) :=
  (h.yields_bind (yields_resolve (by simp)) rfl).located path

/-! ## Free values -/

/-- A free value that is a scalar is what its atom stands for. -/
theorem value_of_found {atom : Atom} (h : found source = .ok (.atom atom)) (depth : ℕ) :
    value depth source = match Value.ofAtom? atom with
      | some value => pure value
      | none => complain (.wrongType (.atom atom) .value) := by
  have hvalue : ∀ inner, valueBy inner source = match Value.ofAtom? atom with
      | some value => pure value
      | none => complain (.wrongType (.atom atom) .value) := by
    intro inner
    cases source with
    | null => cases h; rfl
    | bool b => cases h; rfl
    | number value =>
      cases value with
      | none => cases h
      | some atom => cases h; rfl
    | text spelled =>
      cases spelled with
      | error cause => cases h
      | ok s => cases h; rfl
    | list items => cases h
    | table entries => cases h
    | cut read skipped afterComma => cases h
  cases depth with
  | zero => exact hvalue none
  | succ depth => exact hvalue _

/-- The entries of a table are read from the nodes as from the sources. -/
theorem transfers_tableEntries {read : Source → Reading Value}
    {readKey : Node → Yaml.Reading Value} {read' : Path → Node → Yaml.Reading Value}
    (hkey : ∀ key, Yields (readKey (Source.quoted key)) (.text key))
    (h : ∀ source node, source.node? = some node → ∀ path, Transfers (read source) (read' path node))
    (path : Path) {entries : List (Except Break String × Source)} {nodes : List (Node × Node)}
    (hnodes : Source.entryNodes? entries = some nodes) (before : List (Value × Value)) :
    Transfers (tableEntries read entries before)
      (Yaml.Reading.tableEntries readKey read' path nodes before) := by
  induction entries generalizing nodes before with
  | nil =>
    cases hnodes
    exact ensures_pure (yields_pure before.reverse)
  | cons entry rest ih =>
    obtain ⟨spelled, source⟩ := entry
    obtain ⟨key, node, more, rfl, hnode, hmore, rfl⟩ := Source.exists_of_entryNodes?_cons hnodes
    refine Transfers.yields_bind ?_ (hkey key) rfl
    show Transfers (do
      if Value.hasKey before (.text key) then complain (.repeatedKey (.text key))
      tableEntries read rest ((.text key, ← read source) :: before)) _
    split
    · exact ensures_throw_bind
    · exact (h source node hnode _).bind fun value => ih hmore _

/-- A free scalar is read as the same atom in both formats. -/
theorem transfers_value_scalar {s : Yaml.Scalar} {atom : Atom}
    (hfound : found source = .ok (.atom atom)) (htag : s.tag = none) (hatom : s.untagged = atom)
    (depth depth' : ℕ) (path : Path) :
    Transfers (value depth source) (Yaml.Reading.value depth' path (.scalar none s)) := by
  rw [value_of_found hfound]
  split
  · next value hvalue =>
    have hyields := Yaml.Reading.yields_value_scalar (.inl htag) hatom hvalue depth' path
    rw [htag] at hyields
    exact ensures_pure hyields
  · exact ensures_throw _

section

variable {read : Source → Reading Value} {read' : Path → Node → Yaml.Reading Value} {path : Path}

theorem transfers_valueBy_list {sources : List Source} {nodes : List Node}
    (h : Transfers (sources.mapM read) (Yaml.Reading.items read' path 0 nodes)) :
    Transfers (valueBy (some read) (.list sources))
      (Yaml.Reading.valueBy (some read') path (.sequence none none nodes)) := by
  refine Transfers.located ?_ path
  refine Transfers.yields_bind ?_ (yields_resolve (by simp)) rfl
  refine Transfers.yields_bind ?_ (yields_pure read') rfl
  show Transfers (Value.list <$> sources.mapM read) _
  rw [map_eq_pure_bind]
  exact h.bind fun items => ensures_pure (yields_pure _)

/-- A free table transfers if its entries do. -/
theorem transfers_valueBy_table {entries : List (Except Break String × Source)}
    {nodes : List (Node × Node)}
    (h : Transfers (tableEntries read entries [])
      (Yaml.Reading.tableEntries (read' path) read' path nodes [])) :
    Transfers (valueBy (some read) (.table entries))
      (Yaml.Reading.valueBy (some read') path (.mapping none none nodes)) := by
  refine Transfers.located ?_ path
  refine Transfers.yields_bind ?_ (yields_resolve (by simp)) rfl
  refine Transfers.yields_bind ?_ (yields_pure read') rfl
  show Transfers (Value.table <$> tableEntries read entries []) _
  rw [map_eq_pure_bind]
  exact h.bind fun entries => ensures_pure (yields_pure _)

end

/-- A quoted scalar is a text, whatever it looks like. -/
theorem yields_value_quoted (key : String) (depth : ℕ) (path : Path) :
    Yields (Yaml.Reading.value depth path (Source.quoted key)) (.text key) := by
  have hatom : Yaml.Scalar.untagged ⟨key, none, .doubleQuoted⟩ = .text key := rfl
  exact Yaml.Reading.yields_value_scalar (.inl rfl) hatom rfl depth path

/-- A value is read from its node as it is read from its source. -/
theorem transfers_value {depth depth' : ℕ} (hdepth : depth ≤ depth') (h : source.node? = some node)
    (path : Path) : Transfers (value depth source) (Yaml.Reading.value depth' path node) := by
  induction depth generalizing depth' source node path with
  | zero =>
    cases Source.spelling_of_node? h with
    | scalar hfound htag hatom _ _ => exact transfers_value_scalar hfound htag hatom 0 depth' path
    | list _ => exact ensures_throw _
    | table _ => exact ensures_throw _
  | succ depth ih =>
    obtain ⟨below, rfl⟩ : ∃ below, depth' = below + 1 := ⟨depth' - 1, by omega⟩
    have hbelow : depth ≤ below := by omega
    cases Source.spelling_of_node? h with
    | scalar hfound htag hatom _ _ => exact transfers_value_scalar hfound htag hatom _ _ path
    | list hnodes =>
      exact transfers_valueBy_list
        (transfers_items hnodes (fun source _ node hnode path => ih hbelow hnode path) path 0)
    | table hnodes =>
      exact transfers_valueBy_table
        (transfers_tableEntries (fun key => yields_value_quoted key below path)
          (fun source node hnode path => ih hbelow hnode path) path hnodes [])

/-- What counts as true in one format does in the other one. -/
theorem transfers_truth {depth depth' : ℕ} (hdepth : depth ≤ depth') (h : source.node? = some node)
    (path : Path) : Transfers (truth depth source) (Yaml.Reading.truth ⟨depth', path⟩ node) := by
  refine (transfers_optional h (transfers_value hdepth h path)).bind fun value => ?_
  cases value with
  | none => exact ensures_pure (yields_pure false)
  | some value =>
    cases value with
    | null => exact ensures_pure (yields_pure false)
    | bool b => cases b <;> exact ensures_pure (yields_pure _)
    | _ => exact ensures_pure (yields_pure true)

/-- Options are read from the nodes as from the sources, in order. -/
theorem transfers_optionEntries {depth depth' : ℕ} (hdepth : depth ≤ depth') (path : Path)
    {entries : List (Except Break String × Source)} {nodes : List (Node × Node)}
    (hnodes : Source.entryNodes? entries = some nodes) (options : Options) :
    Transfers (optionEntries depth entries options)
      (Yaml.Reading.optionEntries depth' path nodes options) := by
  induction entries generalizing nodes options with
  | nil =>
    cases hnodes
    exact ensures_pure (yields_pure options)
  | cons entry rest ih =>
    obtain ⟨spelled, source⟩ := entry
    obtain ⟨key, node, more, rfl, hnode, hmore, rfl⟩ := Source.exists_of_entryNodes?_cons hnodes
    refine Transfers.yields_bind ?_ (Yaml.Reading.yields_text_scalar .text path none _) rfl
    exact (transfers_value hdepth hnode _).bind fun value => ih hmore _

/-- Options keep their order. -/
theorem transfers_options {depth depth' : ℕ} (hdepth : depth ≤ depth')
    (h : source.node? = some node) (path : Path) :
    Transfers (options depth source) (Yaml.Reading.options ⟨depth', path⟩ node) := by
  unfold options
  split
  · obtain ⟨nodes, hnodes, rfl⟩ := Source.node?_table h
    split
    · exact ensures_throw _
    · next depth =>
      obtain ⟨below, rfl⟩ : ∃ below, depth' = below + 1 := ⟨depth' - 1, by omega⟩
      exact transfers_mapping (transfers_optionEntries (by omega) path hnodes []) path
  · exact ensures_mismatch .table _

/-! ## Scalars of any type -/

/-- Below a scalar field a scalar is found as it is. -/
theorem content_of_found {atom : Atom} (h : found source = .ok (.atom atom)) (depth : ℕ) :
    content depth source = .ok (some atom) := by
  have hcontent : ∀ inner, contentBy inner source = .ok (some atom) := by
    intro inner
    unfold contentBy
    split
    · cases h
    · cases h
    · rw [h]
      rfl
  cases depth with
  | zero => exact hcontent none
  | succ depth => exact hcontent _

theorem ensures_content_list (depth : ℕ) (sources : List Source) :
    Ensures (content depth (.list sources)) (· = none) := by
  cases depth with
  | zero => exact ensures_throw _
  | succ depth => exact ensures_bind fun _ => ensures_pure rfl

theorem ensures_content_table (depth : ℕ) (entries : List (Except Break String × Source)) :
    Ensures (content depth (.table entries)) (· = none) := by
  cases depth with
  | zero => exact ensures_throw _
  | succ depth => exact ensures_bind fun _ => ensures_pure rfl

/-- A collection is no scalar. -/
theorem transfers_scalarText_none {depth : ℕ} (h : Ensures (content depth source) (· = none))
    {reading' : Yaml.Reading String} : Transfers (scalarText depth source) reading' := by
  refine Ensures.transfers (h.bind fun atom hatom => ?_)
  rw [hatom]
  exact ensures_throw _

/-- A scalar field is read from the plain or quoted scalar as from the source. -/
theorem transfers_scalarText (h : source.node? = some node) (depth depth' : ℕ) (path : Path) :
    Transfers (scalarText depth source) (Yaml.Reading.scalarText ⟨depth', path⟩ node) := by
  cases Source.spelling_of_node? h with
  | @scalar _ s atom hfound htag hatom hwide _ =>
    have hcontent := Yaml.Reading.yields_content_scalar htag hatom hwide depth' path none
    unfold scalarText
    rw [content_of_found hfound, Attempt.ok_bind]
    refine Transfers.yields_bind ?_ hcontent rfl
    rw [Option.bind_some]
    cases atom.fieldText? with
    | none => exact ensures_throw _
    | some text => exact ensures_pure (yields_pure text)
  | list _ => exact transfers_scalarText_none (ensures_content_list depth _)
  | table _ => exact transfers_scalarText_none (ensures_content_table depth _)

end Provision.Json.Reading
