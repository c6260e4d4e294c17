import Provision.Proofs.Yaml.Reading

/-!
# Readings that agree

Two readings agree when they give the same, or both fail, whatever the documents they are made in
and however the places of their complaints are named. A node without aliases says all there is to
read: readings of it agree wherever the node stands (`agree_value`, `agree_options`,
`agree_scalarText` and the like), and so do readings of two nodes of one kind whose parts agree.
-/

namespace Provision.Yaml

namespace Node

/-- The nodes in which no part stands for another node and none is cut off. A tree without anchors
is one, since it has nothing that an alias could stand for. -/
inductive SelfContained : Node → Prop
  | scalar (anchor : Option ℕ) (s : Scalar) : SelfContained (.scalar anchor s)
  | sequence (anchor : Option ℕ) (tag : Option Tag) {items : List Node}
      (h : ∀ item ∈ items, SelfContained item) : SelfContained (.sequence anchor tag items)
  | mapping (anchor : Option ℕ) (tag : Option Tag) {entries : List (Node × Node)}
      (hkeys : ∀ entry ∈ entries, SelfContained entry.1)
      (hvalues : ∀ entry ∈ entries, SelfContained entry.2) :
      SelfContained (.mapping anchor tag entries)

/-- A sequence is self-contained exactly if its items are. -/
theorem selfContained_sequence_iff {anchor : Option ℕ} {tag : Option Tag} {items : List Node} :
    SelfContained (.sequence anchor tag items) ↔ ∀ item ∈ items, SelfContained item := by
  constructor
  · intro h
    cases h with
    | sequence _ _ h => exact h
  · exact .sequence anchor tag

/-- A mapping is self-contained exactly if its keys and values are. -/
theorem selfContained_mapping_iff {anchor : Option ℕ} {tag : Option Tag}
    {entries : List (Node × Node)} : SelfContained (.mapping anchor tag entries) ↔
      ∀ entry ∈ entries, SelfContained entry.1 ∧ SelfContained entry.2 := by
  constructor
  · intro h entry hentry
    cases h with
    | mapping _ _ hkeys hvalues => exact ⟨hkeys entry hentry, hvalues entry hentry⟩
  · intro h
    exact .mapping anchor tag (fun entry hentry => (h entry hentry).1) fun entry hentry =>
      (h entry hentry).2

theorem anyCut_eq_false {items : List Node} (h : ∀ item ∈ items, item.isCut = false) :
    anyCut items = false := by
  induction items with
  | nil => rfl
  | cons item rest ih =>
    obtain ⟨hitem, hrest⟩ := List.forall_mem_cons.mp h
    unfold anyCut
    rw [hitem, ih hrest, Bool.or_false]

/-- No entry is cut off if no key and no value is. -/
theorem anyEntryCut_eq_false {entries : List (Node × Node)}
    (hkeys : ∀ entry ∈ entries, entry.1.isCut = false)
    (hvalues : ∀ entry ∈ entries, entry.2.isCut = false) : anyEntryCut entries = false := by
  induction entries with
  | nil => rfl
  | cons entry rest ih =>
    obtain ⟨hkey, hkeys⟩ := List.forall_mem_cons.mp hkeys
    obtain ⟨hvalue, hvalues⟩ := List.forall_mem_cons.mp hvalues
    unfold anyEntryCut
    rw [hkey, hvalue, ih hkeys hvalues, Bool.or_false, Bool.or_false]

theorem SelfContained.isCut_eq_false {node : Node} (h : node.SelfContained) :
    node.isCut = false := by
  induction h with
  | scalar anchor s => rfl
  | sequence anchor tag _ ih => exact anyCut_eq_false ih
  | mapping anchor tag _ _ ihkeys ihvalues => exact anyEntryCut_eq_false ihkeys ihvalues

/-- Two nodes of which neither is an alias: the same scalar, two sequences or two mappings. -/
inductive SameKind : Node → Node → Prop
  | scalar (anchor : Option ℕ) (s : Scalar) : SameKind (.scalar anchor s) (.scalar anchor s)
  | sequence (anchor anchor' : Option ℕ) (tag tag' : Option Tag) (items items' : List Node) :
    SameKind (.sequence anchor tag items) (.sequence anchor' tag' items')
  | mapping (anchor anchor' : Option ℕ) (tag tag' : Option Tag)
      (entries entries' : List (Node × Node)) :
    SameKind (.mapping anchor tag entries) (.mapping anchor' tag' entries')

theorem SelfContained.sameKind {node : Node} (h : node.SelfContained) : SameKind node node := by
  cases h with
  | scalar anchor s => exact .scalar anchor s
  | sequence anchor tag _ => exact .sequence anchor anchor tag tag _ _
  | mapping anchor tag _ _ => exact .mapping anchor anchor tag tag _ _

end Node

namespace Reading

variable {α β : Type}

/-! ## Failing -/

/-- Whether a reading fails, whatever the document. -/
def Fails (reading : Reading α) : Prop :=
  ∀ document count, ∃ fault, reading document count = .error fault

theorem fails_throw (fault : Fault) : Fails (throw fault : Reading α) :=
  fun _ _ => ⟨fault, rfl⟩

theorem Fails.bind {reading : Reading α} (h : Fails reading) (f : α → Reading β) :
    Fails (reading >>= f) := by
  intro document count
  obtain ⟨fault, hfault⟩ := h document count
  rw [bind_apply, hfault]
  exact ⟨fault, rfl⟩

theorem Yields.bind_fails {reading : Reading α} {a : α} {f : α → Reading β}
    (h : Yields reading a) (hf : Fails (f a)) : Fails (reading >>= f) := by
  intro document count
  rw [bind_apply, h document count]
  exact hf document count

theorem Fails.located {reading : Reading α} (h : Fails reading) (path : Path) :
    Fails (Reading.located path reading) := by
  intro document count
  obtain ⟨fault, hfault⟩ := h document count
  unfold Reading.located
  rw [hfault]
  split
  · exact ⟨_, rfl⟩
  · exact ⟨fault, rfl⟩

/-- A bind whose second part fails, whatever the first gives. -/
theorem fails_bind {reading : Reading α} {f : α → Reading β} (hf : ∀ a, Fails (f a)) :
    Fails (reading >>= f) := by
  intro document count
  rw [bind_apply]
  cases reading document count with
  | error fault => exact ⟨fault, rfl⟩
  | ok pair => exact hf pair.1 document pair.2

/-- There is nothing to read where a document breaks off. -/
theorem fails_brokenOff : Fails (brokenOff : Reading α) := by
  refine fails_bind fun document => ?_
  split
  · exact fails_throw _
  · exact fails_throw _

/-- A node of another kind than the expected one cannot be read. -/
theorem fails_mismatch (expected : Expected) (node : Node) :
    Fails (mismatch expected node : Reading α) := by
  unfold mismatch
  split
  · split
    · exact fails_throw _
    · exact fails_throw _
  · exact fails_throw _
  · exact fails_throw _
  all_goals exact fails_brokenOff

/-- A reading that fails gives nothing. -/
theorem Fails.not_yields {reading : Reading α} (h : Fails reading) (a : α) : ¬Yields reading a := by
  intro hyields
  obtain ⟨fault, hfault⟩ := h ⟨none, [], 0, none, false⟩ 0
  rw [hyields] at hfault
  cases hfault

theorem Yields.eq {reading : Reading α} {a b : α} (h : Yields reading a) (h' : Yields reading b) :
    a = b := by
  have heq := (h ⟨none, [], 0, none, false⟩ 0).symm.trans (h' ⟨none, [], 0, none, false⟩ 0)
  cases heq
  rfl

/-! ## Agreeing -/

/-- Whether two readings give the same or both fail, whatever their documents. -/
inductive Agree (reading reading' : Reading α) : Prop
  | yield {a : α} (h : Yields reading a) (h' : Yields reading' a)
  | fail (h : Fails reading) (h' : Fails reading')

theorem Agree.symm {reading reading' : Reading α} (h : Agree reading reading') :
    Agree reading' reading := by
  cases h with
  | yield h h' => exact .yield h' h
  | fail h h' => exact .fail h' h

theorem Agree.trans {first second third : Reading α} (h : Agree first second)
    (h' : Agree second third) : Agree first third := by
  cases h with
  | yield hfirst hsecond =>
    cases h' with
    | yield hsecond' hthird =>
      rw [hsecond.eq hsecond'] at hfirst
      exact .yield hfirst hthird
    | fail hsecond' _ => exact absurd hsecond (hsecond'.not_yields _)
  | fail hfirst hsecond =>
    cases h' with
    | yield hsecond' _ => exact absurd hsecond' (hsecond.not_yields _)
    | fail _ hthird => exact .fail hfirst hthird

/-- A reading of nothing agrees with itself. -/
theorem agree_pure (a : α) : Agree (pure a) (pure a) :=
  .yield (yields_pure a) (yields_pure a)

/-- Any two failures agree: what they say of their place does not count. -/
theorem agree_throw (fault fault' : Fault) : Agree (throw fault : Reading α) (throw fault') :=
  .fail (fails_throw fault) (fails_throw fault')

/-- Nodes of the wrong kind are refused alike. -/
theorem agree_mismatch (expected : Expected) (node node' : Node) :
    Agree (mismatch expected node : Reading α) (mismatch expected node') :=
  .fail (fails_mismatch expected node) (fails_mismatch expected node')

theorem Agree.bind {reading reading' : Reading α} {f f' : α → Reading β}
    (h : Agree reading reading') (hf : ∀ a, Agree (f a) (f' a)) :
    Agree (reading >>= f) (reading' >>= f') := by
  cases h with
  | @yield a h h' =>
    cases hf a with
    | yield hb hb' => exact .yield (h.bind hb) (h'.bind hb')
    | fail hb hb' => exact .fail (h.bind_fails hb) (h'.bind_fails hb')
  | fail h h' => exact .fail (h.bind f) (h'.bind f')

/-- What follows a fault is not read. -/
theorem agree_throw_bind {fault fault' : Fault} {f f' : α → Reading β} :
    Agree ((throw fault : Reading α) >>= f) ((throw fault' : Reading α) >>= f') :=
  .fail ((fails_throw fault).bind f) ((fails_throw fault').bind f')

theorem Agree.map {reading reading' : Reading α} (h : Agree reading reading') (f : α → β) :
    Agree (f <$> reading) (f <$> reading') := by
  rw [map_eq_pure_bind, map_eq_pure_bind]
  exact h.bind fun a => agree_pure (f a)

theorem Agree.located {reading reading' : Reading α} (h : Agree reading reading')
    (path path' : Path) : Agree (Reading.located path reading) (Reading.located path' reading') := by
  cases h with
  | yield h h' => exact .yield (h.located path) (h'.located path')
  | fail h h' => exact .fail (h.located path) (h'.located path')

/-- Readings that give data from which the rest agrees. -/
theorem Yields.agree_bind {γ : Type} {reading : Reading α} {reading' : Reading β} {a : α} {b : β}
    {f : α → Reading γ} {f' : β → Reading γ} (h : Yields reading a) (h' : Yields reading' b)
    (hf : Agree (f a) (f' b)) : Agree (reading >>= f) (reading' >>= f') := by
  cases hf with
  | yield hc hc' => exact .yield (h.bind hc) (h'.bind hc')
  | fail hc hc' => exact .fail (h.bind_fails hc) (h'.bind_fails hc')

theorem agree_pure_bind {a : α} {f f' : α → Reading β} (h : Agree (f a) (f' a)) :
    Agree ((pure a : Reading α) >>= f) ((pure a : Reading α) >>= f') :=
  (yields_pure a).agree_bind (yields_pure a) h

/-- Nodes that are no aliases stand for themselves, and what is made of them decides. -/
theorem agree_resolve {node node' : Node} (hkind : node.SameKind node') {f f' : Node → Reading α}
    (h : Agree (f node) (f' node')) : Agree (resolve node >>= f) (resolve node' >>= f') := by
  have hnode : Yields (resolve node) node := yields_resolve (by cases hkind <;> simp)
  have hnode' : Yields (resolve node') node' := yields_resolve (by cases hkind <;> simp)
  exact hnode.agree_bind hnode' h

/-- Whether a reading gives `a`, or fails if that is none, whatever the document. -/
def Decides (reading : Reading α) : (result : Option α) → Prop
  | some a => Yields reading a
  | none => Fails reading

theorem Decides.bind {reading : Reading α} {result : Option α} {f : α → Reading β}
    {g : α → Option β} (h : Decides reading result) (hf : ∀ a, Decides (f a) (g a)) :
    Decides (reading >>= f) (result.bind g) := by
  cases result with
  | none => exact Fails.bind h f
  | some a =>
    have hfa := hf a
    rw [Option.bind_some]
    cases hg : g a with
    | none =>
      rw [hg] at hfa
      exact Yields.bind_fails h hfa
    | some b =>
      rw [hg] at hfa
      exact Yields.bind h hfa

/-- Behind a first step that yields, the second step decides. -/
theorem Yields.bind_decides {reading : Reading α} {a : α} {f : α → Reading β}
    {result : Option β} (h : Yields reading a) (hf : Decides (f a) result) :
    Decides (reading >>= f) result := by
  cases result with
  | none => exact h.bind_fails hf
  | some b => exact h.bind hf

/-! ## Single values -/

/-- Every scalar is read as its text where a text is expected. -/
theorem yields_text_scalar (expected : Expected) (path : Path) (anchor : Option ℕ) (s : Scalar) :
    Yields (text expected path (.scalar anchor s)) s.text :=
  Yields.located ((yields_resolve (by simp)).bind (yields_pure s.text)) path

variable {node : Node}

/-- A text is read alike wherever it stands. -/
theorem agree_text (h : node.SelfContained) (expected : Expected) (path path' : Path) :
    Agree (text expected path node) (text expected path' node) := by
  refine (agree_resolve h.sameKind ?_).located path path'
  cases h with
  | scalar anchor s => exact agree_pure s.text
  | sequence anchor tag _ => exact agree_mismatch expected _ _
  | mapping anchor tag _ _ => exact agree_mismatch expected _ _

/-- Only scalars are texts. -/
theorem fails_text (h : node.SelfContained) (hscalar : ∀ anchor s, node ≠ .scalar anchor s)
    (expected : Expected) (path : Path) : Fails (text expected path node) := by
  have hresolve : Yields (resolve node) node := yields_resolve (by cases h <;> simp)
  refine (hresolve.bind_fails ?_).located path
  split
  · next anchor s => exact absurd rfl (hscalar anchor s)
  · exact fails_mismatch expected _

/-- A flag is read alike wherever it stands. -/
theorem agree_flag (h : node.SelfContained) (path path' : Path) :
    Agree (flag path node) (flag path' node) := by
  refine (agree_resolve h.sameKind ?_).located path path'
  cases h with
  | scalar anchor s =>
    dsimp only
    split
    · exact agree_pure _
    · exact agree_mismatch .flag _ _
  | sequence anchor tag _ => exact agree_mismatch .flag _ _
  | mapping anchor tag _ _ => exact agree_mismatch .flag _ _

/-- A port is read alike wherever it stands. -/
theorem agree_port (h : node.SelfContained) (path path' : Path) :
    Agree (port path node) (port path' node) := by
  refine (agree_resolve h.sameKind ?_).located path path'
  cases h with
  | scalar anchor s =>
    dsimp only
    split
    · split
      · exact agree_pure _
      · exact agree_throw _ _
    · exact agree_mismatch .port _ _
  | sequence anchor tag _ => exact agree_mismatch .port _ _
  | mapping anchor tag _ _ => exact agree_mismatch .port _ _

/-- Whether a node is null shows in its kind, if it is no scalar, and in the scalar else. -/
theorem agree_optional {node' : Node} (hkind : node.SameKind node') {read read' : Node → Reading α}
    (h : Agree (read node) (read' node')) : Agree (optional read node) (optional read' node') := by
  refine agree_resolve hkind ?_
  cases hkind with
  | scalar anchor s =>
    dsimp only
    split
    · exact h.map some
    · split
      · split
        · exact agree_pure none
        · exact agree_throw _ _
      · exact h.map some
      · split
        · exact agree_pure none
        · exact h.map some
  | sequence _ _ _ _ _ _ => exact h.map some
  | mapping _ _ _ _ _ _ => exact h.map some

/-! ## Collections -/

/-- Items that are read alike are read alike as a list, and so are they after a change that makes no
difference to any of them. -/
theorem agree_items {read read' : Path → Node → Reading α} {f : Node → Node} {nodes : List Node}
    (h : ∀ node ∈ nodes, ∀ path path', Agree (read path node) (read' path' (f node)))
    (path path' : Path) (index index' : ℕ) :
    Agree (items read path index nodes) (items read' path' index' (nodes.map f)) := by
  induction nodes generalizing index index' with
  | nil => exact agree_pure []
  | cons node rest ih =>
    obtain ⟨hnode, hrest⟩ := List.forall_mem_cons.mp h
    exact (hnode _ _).bind fun a => (ih hrest (index + 1) (index' + 1)).bind fun as => agree_pure _

/-- Nodes of one kind are read alike as lists if their items are. -/
theorem agree_list {node' : Node} (hkind : node.SameKind node') {read read' : Place → Node → Reading α}
    {depth : ℕ} {path path' : Path}
    (h : ∀ anchor tag nodes anchor' tag' nodes', node = .sequence anchor tag nodes →
      node' = .sequence anchor' tag' nodes' → ∀ depth,
        Agree (items (fun path => read ⟨depth, path⟩) path 0 nodes)
          (items (fun path => read' ⟨depth, path⟩) path' 0 nodes')) :
    Agree (list read ⟨depth, path⟩ node) (list read' ⟨depth, path'⟩ node') := by
  refine (agree_resolve hkind ?_).located path path'
  cases hkind with
  | scalar anchor s =>
    dsimp only
    split
    · exact agree_pure []
    · exact agree_mismatch .list _ _
  | sequence _ _ _ _ _ _ =>
    cases depth with
    | zero => exact agree_throw _ _
    | succ depth => exact h _ _ _ _ _ _ rfl rfl depth
  | mapping _ _ _ _ _ _ => exact agree_mismatch .list _ _

/-- Nodes of one kind are read alike as records if their entries are. -/
theorem agree_mapping {node' : Node} (hkind : node.SameKind node') {expected : Expected}
    {read read' : ℕ → List (Node × Node) → Reading α} {depth : ℕ} {path path' : Path}
    (hempty : ∀ depth, Agree (read depth []) (read' depth []))
    (h : ∀ anchor tag entries anchor' tag' entries', node = .mapping anchor tag entries →
      node' = .mapping anchor' tag' entries' → ∀ depth,
        Agree (read depth entries) (read' depth entries')) :
    Agree (mapping expected read ⟨depth, path⟩ node)
      (mapping expected read' ⟨depth, path'⟩ node') := by
  refine (agree_resolve hkind ?_).located path path'
  cases hkind with
  | scalar anchor s =>
    dsimp only
    split
    · exact hempty depth
    · exact agree_mismatch expected _ _
  | sequence _ _ _ _ _ _ => exact agree_mismatch expected _ _
  | mapping _ _ _ _ _ _ =>
    cases depth with
    | zero => exact agree_throw _ _
    | succ depth => exact h _ _ _ _ _ _ rfl rfl depth

/-! ## Free values -/

/-- Whether a reading of nodes depends on the node alone. -/
def Settled (read : Path → Node → Reading α) : Prop :=
  ∀ node : Node, node.SelfContained → ∀ path path', Agree (read path node) (read path' node)

/-- Items are read alike wherever they stand if each one is. -/
theorem Settled.items {read : Path → Node → Reading α} (hread : Settled read) {nodes : List Node}
    (h : ∀ node ∈ nodes, node.SelfContained) (path path' : Path) (index index' : ℕ) :
    Agree (Reading.items read path index nodes) (Reading.items read path' index' nodes) := by
  have hitems := agree_items (f := id) (fun node hnode => hread node (h node hnode)) path path'
    index index'
  rwa [List.map_id] at hitems

/-- The entries of a table are read alike wherever they stand. -/
theorem agree_tableEntries {read : Path → Node → Reading Value} (hread : Settled read)
    (path path' : Path) {entries : List (Node × Node)}
    (hkeys : ∀ entry ∈ entries, entry.1.SelfContained)
    (hvalues : ∀ entry ∈ entries, entry.2.SelfContained) (before : List (Value × Value)) :
    Agree (tableEntries (read path) read path entries before)
      (tableEntries (read path') read path' entries before) := by
  induction entries generalizing before with
  | nil => exact agree_pure before.reverse
  | cons entry rest ih =>
    obtain ⟨keyNode, node⟩ := entry
    obtain ⟨hkey, hkeys⟩ := List.forall_mem_cons.mp hkeys
    obtain ⟨hvalue, hvalues⟩ := List.forall_mem_cons.mp hvalues
    refine (hread keyNode hkey path path').bind fun key => ?_
    split
    · exact agree_throw_bind
    · exact (hread node hvalue _ _).bind fun value => ih hkeys hvalues _

/-- A free scalar is read the same way each time. -/
theorem agree_scalarValue (s : Scalar) : Agree (scalarValue s) (scalarValue s) := by
  unfold scalarValue
  split
  · exact agree_throw _ _
  · split
    · exact agree_pure _
    · exact agree_throw _ _

/-- What a free value is read as depends on its node alone if this holds of its parts. -/
theorem settled_valueBy {inner : Option (Path → Node → Reading Value)}
    (hinner : ∀ read, inner = some read → Settled read) : Settled (valueBy inner) := by
  intro node h path path'
  refine (agree_resolve h.sameKind ?_).located path path'
  cases h with
  | scalar anchor s =>
    dsimp only
    split
    · exact (agree_scalarValue _).map _
    · exact agree_scalarValue s
  | sequence anchor tag h =>
    cases inner with
    | none => exact agree_throw_bind
    | some read =>
      refine agree_pure_bind ?_
      exact ((hinner read rfl).items h path path' 0 0).bind fun items => agree_pure _
  | mapping anchor tag hkeys hvalues =>
    cases inner with
    | none => exact agree_throw_bind
    | some read =>
      refine agree_pure_bind ?_
      exact (agree_tableEntries (hinner read rfl) path path' hkeys hvalues []).bind fun entries =>
        agree_pure _

/-- What a free value is read as depends on its node alone. -/
theorem settled_value (depth : ℕ) : Settled (value depth) := by
  induction depth with
  | zero => exact settled_valueBy fun read hread => by cases hread
  | succ depth ih =>
    refine settled_valueBy fun read hread => ?_
    cases hread
    exact ih

/-- A truth is read alike wherever it stands. -/
theorem agree_truth (h : node.SelfContained) (depth : ℕ) (path path' : Path) :
    Agree (truth ⟨depth, path⟩ node) (truth ⟨depth, path'⟩ node) := by
  refine (agree_optional h.sameKind (settled_value depth node h path path')).bind fun value => ?_
  split
  all_goals exact agree_pure _

/-- Options are read alike, one after the other, wherever they stand. -/
theorem agree_optionEntries (depth : ℕ) (path path' : Path) {entries : List (Node × Node)}
    (hkeys : ∀ entry ∈ entries, entry.1.SelfContained)
    (hvalues : ∀ entry ∈ entries, entry.2.SelfContained) (options : Options) :
    Agree (optionEntries depth path entries options) (optionEntries depth path' entries options) := by
  induction entries generalizing options with
  | nil => exact agree_pure options
  | cons entry rest ih =>
    obtain ⟨hkey, hkeys⟩ := List.forall_mem_cons.mp hkeys
    obtain ⟨hvalue, hvalues⟩ := List.forall_mem_cons.mp hvalues
    exact (agree_text hkey .text path path').bind fun name =>
      (settled_value depth _ hvalue _ _).bind fun value => ih hkeys hvalues _

/-- The options of a folder are read alike wherever they stand. -/
theorem agree_options (h : node.SelfContained) (depth : ℕ) (path path' : Path) :
    Agree (options ⟨depth, path⟩ node) (options ⟨depth, path'⟩ node) := by
  refine agree_mapping h.sameKind (fun _ => agree_pure []) ?_
  intro anchor tag entries anchor' tag' entries' hnode hnode' depth
  rw [hnode] at hnode' h
  cases hnode'
  cases h with
  | mapping _ _ hkeys hvalues => exact agree_optionEntries depth path path' hkeys hvalues []

/-! ## Scalars of any type -/

/-- The entries below a scalar field are read alike wherever they stand. -/
theorem agree_contentEntries {read : Path → Node → Reading (Option Atom)} (hread : Settled read)
    (path path' : Path) {entries : List (Node × Node)}
    (hkeys : ∀ entry ∈ entries, entry.1.SelfContained)
    (hvalues : ∀ entry ∈ entries, entry.2.SelfContained) :
    Agree (contentEntries read path entries) (contentEntries read path' entries) := by
  induction entries with
  | nil => exact agree_pure ()
  | cons entry rest ih =>
    obtain ⟨hkey, hkeys⟩ := List.forall_mem_cons.mp hkeys
    obtain ⟨hvalue, hvalues⟩ := List.forall_mem_cons.mp hvalues
    exact (hread _ hkey _ _).bind fun _ => (hread _ hvalue _ _).bind fun _ => ih hkeys hvalues

/-- A tag of the document's own is refused wherever it stands. -/
def refuseOwn : Option Tag → Reading Unit
  | some (.own _) => complain .taggedScalar
  | _ => return ()

/-- Both readings refuse a tag of the document's own. -/
theorem agree_refuseOwn (tag : Option Tag) {f f' : Unit → Reading α} (hf : Agree (f ()) (f' ())) :
    Agree (refuseOwn tag >>= f) (refuseOwn tag >>= f') := by
  unfold refuseOwn
  split
  · exact agree_throw_bind
  · exact agree_pure_bind hf

/-- What is found below a scalar field depends on its node alone if this holds of its parts. -/
theorem settled_contentBy {inner : Option (Path → Node → Reading (Option Atom))}
    (hinner : ∀ read, inner = some read → Settled read) : Settled (contentBy inner) := by
  intro node h path path'
  refine (agree_resolve h.sameKind ?_).located path path'
  cases h with
  | scalar anchor s =>
    -- a tag of the document's own is refused at every place
    refine agree_refuseOwn s.tag ?_
    split
    · exact agree_throw _ _
    · exact agree_throw _ _
    · exact agree_pure _
  | sequence anchor tag h =>
    refine agree_refuseOwn tag ?_
    cases inner with
    | none => exact agree_throw_bind
    | some read =>
      refine agree_pure_bind ?_
      exact ((hinner read rfl).items h path path' 0 0).bind fun _ => agree_pure _
  | mapping anchor tag hkeys hvalues =>
    refine agree_refuseOwn tag ?_
    cases inner with
    | none => exact agree_throw_bind
    | some read =>
      refine agree_pure_bind ?_
      exact (agree_contentEntries (hinner read rfl) path path' hkeys hvalues).bind fun _ =>
        agree_pure _

/-- What is found below a scalar field depends on its node alone. -/
theorem settled_content (depth : ℕ) : Settled (content depth) := by
  induction depth with
  | zero => exact settled_contentBy fun read hread => by cases hread
  | succ depth ih =>
    refine settled_contentBy fun read hread => ?_
    cases hread
    exact ih

/-- A scalar field is read alike wherever it stands. -/
theorem agree_scalarText (h : node.SelfContained) (depth : ℕ) (path path' : Path) :
    Agree (scalarText ⟨depth, path⟩ node) (scalarText ⟨depth, path'⟩ node) := by
  refine (settled_content depth node h path path').bind fun atom => ?_
  split
  · exact agree_pure _
  · exact agree_throw _ _

end Reading

end Provision.Yaml
