import Provision.Proofs.Settings.Insertion

/-!
# Null keys in YAML

What reading gives after a mapping got a key with null in it, and after an item of a list under a
key changed. In a tree without aliases every entry has an effect that does not depend on the document
(`Record.exists_entryEffects`), so the effects of the other entries stay as they are.
-/

namespace Provision

open Yaml (Node Path)
open Yaml.Reading (Yields Fails Decides)

/-! ## Changes of a tree -/

namespace Yaml.Node

/-- A plain scalar without a tag that is null, or empty. -/
inductive IsNull : Node → Prop
  | mk (anchor : Option ℕ) {text : String} (h : text = "" ∨ Yaml.isNull text = true) :
    IsNull (.scalar anchor ⟨text, none, .plain⟩)

/-- A mapping with one more entry, anywhere among the others: a key with null. No other key stands
for the same field. -/
inductive GainsNull (field? : String → Option String) (key : String) : Node → Node → Prop
  | mk (anchor : Option ℕ) (tag : Option Tag) {front back : List (Node × Node)}
      (keyAnchor : Option ℕ) {s : Scalar} {value : Node} (hkey : s.text = key)
      (hvalue : value.IsNull) (hnew : ∀ entry ∈ front ++ back, ∀ anchor s,
        entry.1 = .scalar anchor s → field? s.text ≠ field? key) :
    GainsNull field? key (.mapping anchor tag (front ++ back))
      (.mapping anchor tag (front ++ (.scalar keyAnchor s, value) :: back))

/-- A mapping with a list under a key, of which one item changes. -/
inductive ItemChanges (key : String) (index : ℕ) (R : Node → Node → Prop) : Node → Node → Prop
  | mk (anchor : Option ℕ) (tag : Option Tag) (front back : List (Node × Node))
      (keyAnchor : Option ℕ) {s : Scalar} (hkey : s.text = key) (listAnchor : Option ℕ)
      (listTag : Option Tag) {before after : List Node} (hindex : before.length = index)
      {item item' : Node} (h : R item item') :
    ItemChanges key index R
      (.mapping anchor tag (front ++
        (.scalar keyAnchor s, .sequence listAnchor listTag (before ++ item :: after)) :: back))
      (.mapping anchor tag (front ++
        (.scalar keyAnchor s, .sequence listAnchor listTag (before ++ item' :: after)) :: back))

end Yaml.Node

/-! ## What is decided by a node -/

namespace Yaml.Reading

variable {α β : Type}

/-- The result that a reading has in every document is the one it gives in all. -/
theorem Decides.eq_some {reading : Reading α} {result : Option α} (h : Decides reading result)
    {a : α} (ha : Yields reading a) : result = some a := by
  cases result with
  | none => exact absurd ha (Fails.not_yields h a)
  | some b => exact congrArg some (Yields.eq h ha)

theorem Decides.located {reading : Reading α} {result : Option α} (h : Decides reading result)
    (path : Path) : Decides (Reading.located path reading) result := by
  cases result with
  | none => exact Fails.located h path
  | some a => exact Yields.located h path

/-- What such a reading gives in one document it gives in all. -/
theorem Decides.ensuresIn_yields {reading : Reading α} {result : Option α}
    (h : Decides reading result) (document : Document) : reading.EnsuresIn document (Yields reading) := by
  intro count a count' ha
  cases result with
  | none =>
    obtain ⟨fault, hfault⟩ := h document count
    rw [hfault] at ha
    cases ha
  | some b =>
    rw [h document count] at ha
    cases ha
    exact h

/-- The first part of a reading that gives something gives something, if it is decided. -/
theorem Decides.exists_yields {reading : Reading α} {result : Option α} (h : Decides reading result)
    {f : α → Reading β} {b : β} (hb : Yields (reading >>= f) b) :
    ∃ a, Yields reading a ∧ Yields (f a) b := by
  cases result with
  | none => exact absurd hb ((Fails.bind h f).not_yields b)
  | some a =>
    refine ⟨a, h, fun document count => ?_⟩
    have hbind := hb document count
    rw [bind_apply, h document count] at hbind
    exact hbind

/-- A reading yields what it yields where it stands. -/
theorem Yields.of_located {reading : Reading α} {path : Path} {a : α}
    (h : Yields (Reading.located path reading) a) : Yields reading a := by
  intro document count
  have hlocated := h document count
  unfold Reading.located at hlocated
  split at hlocated
  · cases hlocated
  · exact hlocated

/-- A reading of nodes without aliases depends on the node alone, and not on where it stands. -/
def Decided (read : Path → Node → Reading α) : Prop :=
  ∀ node : Node, node.SelfContained → ∃ result, ∀ path, Decides (read path node) result

variable {read : Path → Node → Reading α}

/-- Reading all items is decided if reading each one is. -/
theorem Decided.items (hread : Decided read) {nodes : List Node}
    (h : ∀ node ∈ nodes, node.SelfContained) (path : Path) (index : ℕ) :
    ∃ result, Decides (Reading.items read path index nodes) result := by
  induction nodes generalizing index with
  | nil => exact ⟨some [], yields_pure []⟩
  | cons node rest ih =>
    obtain ⟨hnode, hrest⟩ := List.forall_mem_cons.mp h
    obtain ⟨result, hresult⟩ := hread node hnode
    obtain ⟨results, hresults⟩ := ih hrest (index + 1)
    exact ⟨result.bind fun a => results.bind fun as => some (a :: as),
      (hresult _).bind fun a => hresults.bind fun as => yields_pure (a :: as)⟩

/-- Items that were read are the first one and the others. -/
theorem Decided.exists_of_cons (hread : Decided read) {node : Node} {rest : List Node}
    (h : ∀ item ∈ node :: rest, item.SelfContained) {path : Path} {index : ℕ} {as : List α}
    (has : Yields (Reading.items read path index (node :: rest)) as) :
    ∃ a more, as = a :: more ∧ Yields (read (.item path index) node) a ∧
      Yields (Reading.items read path (index + 1) rest) more := by
  obtain ⟨hself, hrest⟩ := List.forall_mem_cons.mp h
  obtain ⟨result, hresult⟩ := hread node hself
  obtain ⟨results, hresults⟩ := hread.items hrest path (index + 1)
  obtain ⟨a, ha, hmore⟩ := (hresult _).exists_yields has
  obtain ⟨more, hmore, hpure⟩ := hresults.exists_yields hmore
  exact ⟨a, more, hpure.eq (yields_pure _), ha, hmore⟩

/-- An item of a list may be read as anything else, with nothing else read another way. -/
theorem Decided.exists_item (hread : Decided read) {before after : List Node} {item : Node}
    (h : ∀ node ∈ before ++ item :: after, node.SelfContained) {path : Path} {start : ℕ}
    {as : List α} (has : Yields (Reading.items read path start (before ++ item :: after)) as) :
    ∃ itemPath a, as[before.length]? = some a ∧ Yields (read itemPath item) a ∧
      ∀ item' a', Yields (read itemPath item') a' →
        Yields (Reading.items read path start (before ++ item' :: after))
          (as.set before.length a') := by
  induction before generalizing start as with
  | nil =>
    obtain ⟨a, more, rfl, ha, hmore⟩ := hread.exists_of_cons h has
    exact ⟨_, a, rfl, ha, fun item' a' ha' => ha'.bind (hmore.bind (yields_pure _))⟩
  | cons node before ih =>
    obtain ⟨a, more, rfl, ha, hmore⟩ := hread.exists_of_cons h has
    obtain ⟨itemPath, found, hfound, hitem, hset⟩ := ih (List.forall_mem_cons.mp h).2 hmore
    exact ⟨itemPath, found, hfound, hitem, fun item' a' ha' =>
      ha.bind ((hset item' a' ha').bind (yields_pure _))⟩

end Yaml.Reading

namespace Codec

variable {α : Type}

/-- Whether a codec reads a node without aliases alike wherever it stands, in every document. -/
def Decided (codec : Codec α) : Prop :=
  ∀ depth, Yaml.Reading.Decided fun path => codec.ofNode ⟨depth, path⟩

/-- A codec that follows canonical forms decides on every tree. -/
theorem Follows.decided {codec : Codec α} {before : Node → Node → Bool} {layout : Layout}
    (h : codec.Follows before layout) : codec.Decided := by
  intro depth node hnode
  have hcanonical : ∀ path, Yaml.Reading.Agree (codec.ofNode ⟨depth, path⟩ node)
      (codec.ofNode ⟨depth, .root⟩ (layout.canonical before node)) :=
    fun path => h node hnode depth path .root
  -- read at any place, the node gives what its canonical form gives at the root
  cases hcanonical .root with
  | @yield a _ ha =>
    refine ⟨some a, fun path => ?_⟩
    cases hcanonical path with
    | yield hb hb' =>
      rw [ha.eq hb']
      exact hb
    | fail _ hfails => exact absurd ha (hfails.not_yields a)
  | fail _ hfails =>
    refine ⟨none, fun path => ?_⟩
    cases hcanonical path with
    | yield _ hb => exact absurd hb (hfails.not_yields _)
    | fail hfails' _ => exact hfails'

/-- Codecs of settings read a node as they read its canonical form, whatever order of keys that has:
here none at all. -/
theorem law_unordered : Codec.Law fun _ codec layout => codec.Follows (fun _ _ => false) layout :=
  law_follows _

/-- An item of a list may be read as anything else, with nothing else read another way. -/
theorem Decided.exists_item {codec : Codec α} (hcodec : codec.Decided) {before after : List Node}
    {item : Node} (h : ∀ node ∈ before ++ item :: after, node.SelfContained) {anchor : Option ℕ}
    {tag : Option Yaml.Tag} {place : Yaml.Place} {as : List α}
    (has : Yields (codec.list.ofNode place (.sequence anchor tag (before ++ item :: after))) as) :
    ∃ itemPlace a, as[before.length]? = some a ∧ Yields (codec.ofNode itemPlace item) a ∧
      ∀ item' a', Yields (codec.ofNode itemPlace item') a' →
        Yields (codec.list.ofNode place (.sequence anchor tag (before ++ item' :: after)))
          (as.set before.length a') := by
  have hresolve : ∀ items, Yields (Yaml.Reading.resolve (.sequence anchor tag items))
      (.sequence anchor tag items) := fun items => Yaml.Reading.yields_resolve (by simp)
  have hself : Decides (Yaml.Reading.resolve (.sequence anchor tag (before ++ item :: after)))
      (some _) := hresolve _
  obtain ⟨node, hnode, hread⟩ := hself.exists_yields has.of_located
  obtain rfl := (hresolve _).eq hnode
  obtain ⟨depth, path⟩ := place
  cases depth with
  | zero => exact absurd hread ((Yaml.Reading.fails_throw _).not_yields as)
  | succ depth =>
    obtain ⟨itemPath, a, ha, hitem, hset⟩ := (hcodec depth).exists_item h hread
    exact ⟨⟨depth, itemPath⟩, a, ha, hitem, fun item' a' ha' =>
      ((hresolve _).bind (hset item' a' ha')).located path⟩

end Codec

/-! ## Records -/

namespace Record

open Effect (setting refusal applyAll)

variable {σ : Type} {r : Record σ} {depth : ℕ} {path : Path}

/-- Whether an entry has an effect, and sets no field but that of its key. -/
structure EntryHas (r : Record σ) (depth : ℕ) (path : Path) (entry : Node × Node)
    (effect : Effect σ) : Prop where
  has : r.HasEffect depth path entry effect
  key : ∀ field a, effect = setting field a → field ∈ r.fields ∧
    ∃ anchor s, entry.1 = .scalar anchor s ∧ r.fieldName? s.text = some field.name

/-- Every entry of a mapping has an effect. -/
theorem exists_entryEffect (hdecided : ∀ field ∈ r.fields, field.codec.Decided) (depth : ℕ)
    (path : Path) {entry : Node × Node} (hkey : entry.1.SelfContained)
    (hvalue : entry.2.SelfContained) : ∃ effect, r.EntryHas depth path entry effect := by
  obtain ⟨key, node⟩ := entry
  -- only a scalar can name a field
  by_cases hscalar : ∀ anchor s, key ≠ .scalar anchor s
  · exact ⟨.refusal, hasEffect_refusal_of_key hkey hscalar, nofun⟩
  push Not at hscalar
  obtain ⟨anchor, s, rfl⟩ := hscalar
  cases hfind : r.fields.find? (·.goesBy s.text) with
  | none => exact ⟨.nothing, hasEffect_nothing hfind hvalue.isCut_eq_false, nofun⟩
  | some field =>
    have hmem := List.mem_of_find?_eq_some hfind
    have hname : r.fieldName? s.text = some field.name := by rw [fieldName?, hfind, Option.map_some]
    obtain ⟨result, hresult⟩ := hdecided field hmem depth node hvalue
    have hread := hresult (path.under (.scalar anchor s))
    cases result with
    | none => exact ⟨.refusal, hasEffect_refusal hfind hread, nofun⟩
    | some a =>
      refine ⟨.setting field a, hasEffect_setting hfind hread, fun field' a' heq => ?_⟩
      cases heq
      exact ⟨hmem, anchor, s, rfl, hname⟩

/-- The entries of a mapping have their effects one by one. -/
theorem exists_entryEffects (hdecided : ∀ field ∈ r.fields, field.codec.Decided) (depth : ℕ)
    (path : Path) {entries : List (Node × Node)}
    (h : ∀ entry ∈ entries, entry.1.SelfContained ∧ entry.2.SelfContained) :
    ∃ effects, List.Forall₂ (r.EntryHas depth path) entries effects := by
  induction entries with
  | nil => exact ⟨[], .nil⟩
  | cons entry rest ih =>
    obtain ⟨⟨hkey, hvalue⟩, hrest⟩ := List.forall_mem_cons.mp h
    obtain ⟨effect, heffect⟩ := exists_entryEffect hdecided depth path hkey hvalue
    obtain ⟨effects, heffects⟩ := ih hrest
    exact ⟨effect :: effects, .cons heffect heffects⟩

/-- What sets a field is the effect of an entry whose key stands for it. -/
theorem exists_entry {entries : List (Node × Node)} {effects : List (Effect σ)}
    (h : List.Forall₂ (r.EntryHas depth path) entries effects) {field : Field σ} {a : field.α}
    (hmem : setting field a ∈ effects) : field ∈ r.fields ∧ ∃ entry ∈ entries, ∃ anchor s,
      entry.1 = .scalar anchor s ∧ r.fieldName? s.text = some field.name := by
  obtain ⟨entry, hentry, heffect⟩ := exists_of_mem_effects h hmem
  obtain ⟨hfield, hkey⟩ := heffect.key field a rfl
  exact ⟨hfield, entry, hentry, hkey⟩

/-- A record is finished exactly if it is complete. -/
theorem decides_complete? (p : Progress σ) : Decides (r.finish p) (r.complete? p) := by
  unfold finish complete?
  cases r.missing? p.seen with
  | none => exact Yaml.Reading.yields_pure p.record
  | some name => exact Yaml.Reading.fails_throw _

/-- A mapping is read as what the effects of its entries come to. -/
theorem decides_ofNode {entries : List (Node × Node)} {effects : List (Effect σ)}
    (h : List.Forall₂ (r.HasEffect depth path) entries effects) (anchor : Option ℕ)
    (tag : Option Yaml.Tag) :
    Decides (r.ofNode ⟨depth + 1, path⟩ (.mapping anchor tag entries)) (r.outcome effects) := by
  refine ((Yaml.Reading.yields_resolve (by simp)).bind_decides ?_).located path
  exact (decides_ofEntries h _).bind decides_complete?

/-- No record is read where collections cannot nest any deeper. -/
theorem exists_deeper {place : Yaml.Place} {anchor : Option ℕ} {tag : Option Yaml.Tag}
    {entries : List (Node × Node)} {s : σ}
    (h : Yields (r.ofNode place (.mapping anchor tag entries)) s) :
    ∃ depth path, place = ⟨depth + 1, path⟩ := by
  obtain ⟨depth, path⟩ := place
  cases depth with
  | succ depth => exact ⟨depth, path, rfl⟩
  | zero =>
    have hresolve : Yields (Yaml.Reading.resolve (.mapping anchor tag entries)) _ :=
      Yaml.Reading.yields_resolve (by simp)
    refine absurd h (Fails.not_yields ?_ s)
    unfold ofNode Yaml.Reading.mapping
    exact (hresolve.bind_fails (Yaml.Reading.fails_throw _)).located path

theorem forall₂_has {entries : List (Node × Node)} {effects : List (Effect σ)}
    (h : List.Forall₂ (r.EntryHas depth path) entries effects) :
    List.Forall₂ (r.HasEffect depth path) entries effects :=
  h.imp fun _ _ hentry => hentry.has

/-- The effects of entries are on fields of the record. -/
theorem sets_of_forall₂ {entries : List (Node × Node)} {effects : List (Effect σ)}
    (h : List.Forall₂ (r.EntryHas depth path) entries effects) : r.Sets effects :=
  fun _ _ hmem => (exists_entry h hmem).1

/-- A record whose mapping gains a key with null gets what null is read as. What makes no difference
in the blank record made none in this one either. -/
theorem yields_of_gainsNull (hcommutes : r.Commutes)
    (hdecided : ∀ field ∈ r.fields, field.codec.Decided) {key : String} {field : Field σ}
    (hfind : r.fields.find? (·.goesBy key) = some field) {a : field.α}
    (hnull : ∀ node : Node, node.IsNull → ∀ place, Yields (field.codec.ofNode place node) a)
    {node node' : Node} (h : node.GainsNull r.fieldName? key node') (hnode : node.SelfContained)
    {place : Yaml.Place} {s : σ} (hs : Yields (r.ofNode place node) s) :
    Yields (r.ofNode place node') (field.put a s) ∧
      ∀ b, field.put b r.blank = r.blank → field.put b s = s := by
  cases h with
  | @mk anchor tag front back keyAnchor key value hkey hvalue hnew =>
    subst hkey
    obtain ⟨depth, path, rfl⟩ := exists_deeper hs
    have hentries := Yaml.Node.selfContained_mapping_iff.mp hnode
    obtain ⟨effects, heffects⟩ := exists_entryEffects hdecided depth path
      fun entry hentry => hentries entry (List.mem_append_left back hentry)
    obtain ⟨effects', heffects'⟩ := exists_entryEffects hdecided depth path
      fun entry hentry => hentries entry (List.mem_append_right front hentry)
    have hall := List.rel_append heffects heffects'
    have hother : ∀ other b, setting other b ∈ effects ++ effects' →
        some other.name ≠ r.fieldName? key.text := by
      intro other b hmem
      obtain ⟨-, entry, hentry, anchor, s, hscalar, hname⟩ := exists_entry hall hmem
      rw [← hname]
      exact hnew entry hentry anchor s hscalar
    have houtcome : r.outcome (effects ++ effects') = some s :=
      (decides_ofNode (forall₂_has hall) anchor tag).eq_some hs
    obtain ⟨hput, hsame⟩ :=
      outcome_gains hcommutes (sets_of_forall₂ hall) hfind hother houtcome a
    refine ⟨?_, hsame⟩
    -- the other entries have the effects they had
    have hgained : List.Forall₂ (r.HasEffect depth path)
        (front ++ (.scalar keyAnchor key, value) :: back)
        (effects ++ setting field a :: effects') := by
      refine List.rel_append (forall₂_has heffects) (.cons ?_ (forall₂_has heffects'))
      exact hasEffect_setting hfind (hnull value hvalue _)
    have hread := decides_ofNode hgained anchor tag
    rw [hput] at hread
    exact hread

/-- The list under a key of a mapping, of which an item changes: the item may be read as anything
else, and then that item of the record is something else. -/
theorem exists_item_of_itemChanges (hr : r.Lawful) (hcommutes : r.Commutes)
    (hdecided : ∀ field ∈ r.fields, field.codec.Decided) {β : Type} {codec : Codec β}
    {name : String} {get : σ → List β} {put : List β → σ → σ}
    (hfield : .list name codec get put ∈ r.fields) (hcodec : codec.Decided) {index : ℕ}
    {R : Node → Node → Prop} {node node' : Node} (h : node.ItemChanges name index R node')
    (hnode : node.SelfContained) {place : Yaml.Place} {s : σ}
    (hs : Yields (r.ofNode place node) s) :
    ∃ item item', R item item' ∧ item.SelfContained ∧ ∃ itemPlace bs b record, s = put bs record ∧
      bs[index]? = some b ∧ Yields (codec.ofNode itemPlace item) b ∧
      ∀ b', Yields (codec.ofNode itemPlace item') b' →
        Yields (r.ofNode place node') (put (bs.set index b') record) := by
  cases h with
  | @mk anchor tag front back keyAnchor key hkey listAnchor listTag before after hindex item item'
      hR =>
    subst hindex
    obtain ⟨depth, path, rfl⟩ := exists_deeper hs
    have hentries := Yaml.Node.selfContained_mapping_iff.mp hnode
    have hlist := (hentries _ (List.mem_append_right front List.mem_cons_self)).2
    obtain ⟨effects, heffects⟩ := exists_entryEffects hdecided depth path
      fun entry hentry => hentries entry (List.mem_append_left _ hentry)
    obtain ⟨effects', heffects'⟩ := exists_entryEffects hdecided depth path fun entry hentry =>
      hentries entry (List.mem_append_right front (List.mem_cons_of_mem _ hentry))
    have hfind : r.fields.find? (·.goesBy key.text) = some (.list name codec get put) := by
      rw [hkey]
      exact find?_name hr.distinct _ hfield
    have hsets : r.Sets (effects ++ effects') :=
      sets_of_forall₂ (List.rel_append heffects heffects')
    -- what the mapping is read as when the list has an effect
    have hread : ∀ {items} {effect : Effect σ},
        r.HasEffect depth path (.scalar keyAnchor key, .sequence listAnchor listTag items) effect →
        Decides (r.ofNode ⟨depth + 1, path⟩ (.mapping anchor tag (front ++
          (.scalar keyAnchor key, .sequence listAnchor listTag items) :: back)))
          (r.outcome (effects ++ effect :: effects')) := by
      intro items effect heffect
      exact decides_ofNode
        (List.rel_append (forall₂_has heffects) (.cons heffect (forall₂_has heffects'))) anchor tag
    obtain ⟨result, hresult⟩ := hdecided _ hfield depth _ hlist
    have hresult' := hresult (path.under (.scalar keyAnchor key))
    cases result with
    | none =>
      -- a list that is refused leaves no record
      have hrefused := hread (hasEffect_refusal hfind hresult')
      rw [outcome_refusal] at hrefused
      exact absurd hs (Fails.not_yields hrefused s)
    | some bs =>
      have houtcome := (hread (hasEffect_setting hfind hresult')).eq_some hs
      obtain ⟨record, rfl, hput⟩ := exists_of_outcome hcommutes hsets hfield houtcome
      have hitems := Yaml.Node.selfContained_sequence_iff.mp hlist
      have hitem := hitems item (List.mem_append_right before List.mem_cons_self)
      obtain ⟨itemPlace, b, hb, hyields, hset⟩ := hcodec.exists_item hitems hresult'
      refine ⟨item, item', hR, hitem, itemPlace, bs, b, record, rfl, hb, hyields, fun b' hb' => ?_⟩
      have hchanged := hread (hasEffect_setting hfind (hset item' b' hb'))
      rw [hput (bs.set before.length b')] at hchanged
      exact hchanged

end Record

end Provision
