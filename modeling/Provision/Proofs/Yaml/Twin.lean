import Mathlib.Data.Set.Basic
import Provision.Proofs.Attempt
import Provision.Proofs.Yaml.Agreement
import Provision.Proofs.Yaml.Targets
import Provision.Proofs.Yaml.Value

/-!
# Readings in two documents

Readings in two documents match when they end with the same fault, or give data in a relation after
they followed as many aliases. A document is read only by its nodes, its size, its anchors and the
way it ends. So what refers to anchors under which two documents have the same nodes is read alike
in both (`steady_value`, `agrees_options` and the like), and a list or a mapping is where its parts
are. Where any scalar may stand, two scalars are read alike as far as their texts are
(`matches_scalarText`).
-/

namespace Provision

/-- Whether two data are the same, as long as only equal texts are in a relation. -/
def Alike {α : Type} (T : String → String → Prop) (a b : α) : Prop :=
  (∀ text text', T text text' → text = text') → a = b

namespace Alike

variable {α β γ : Type} {T : String → String → Prop}

theorem refl (a : α) : Alike T a a := fun _ => rfl

theorem of_eq {a b : α} (h : a = b) : Alike T a b := fun _ => h

/-- Equality only holds of texts that are equal. -/
theorem eq {a b : α} (h : Alike (· = ·) a b) : a = b := h fun _ _ htext => htext

theorem of_rel {text text' : String} (h : T text text') : Alike T text text' := fun hT => hT _ _ h

theorem map {a b : α} (h : Alike T a b) (f : α → β) : Alike T (f a) (f b) :=
  fun hT => congrArg f (h hT)

theorem map₂ {a b : α} {a' b' : β} (h : Alike T a b) (h' : Alike T a' b') (f : α → β → γ) :
    Alike T (f a a') (f b b') := fun hT => congrArg₂ f (h hT) (h' hT)

/-- Lists are alike if their items are, one by one. -/
theorem list {as bs : List α} (h : List.Forall₂ (Alike T) as bs) : Alike T as bs := fun hT =>
  List.forall₂_eq_eq_eq ▸ h.imp fun _ _ halike => halike hT

end Alike

namespace Yaml

/-- The nodes whose aliases are all for some anchors. -/
inductive Node.Within (ids : Set ℕ) : Node → Prop
  | scalar (anchor : Option ℕ) (s : Scalar) : Within ids (.scalar anchor s)
  | sequence (anchor : Option ℕ) (tag : Option Tag) {items : List Node}
      (h : ∀ item ∈ items, Within ids item) : Within ids (.sequence anchor tag items)
  | mapping (anchor : Option ℕ) (tag : Option Tag) {entries : List (Node × Node)}
      (hkeys : ∀ entry ∈ entries, Within ids entry.1)
      (hvalues : ∀ entry ∈ entries, Within ids entry.2) : Within ids (.mapping anchor tag entries)
  | alias {id : ℕ} (h : id ∈ ids) : Within ids (.alias id)
  | cut : Within ids .cut

/-- Two documents of one size that break off alike, and anchors under which they have the same
nodes. What these nodes refer to is among the anchors. -/
structure Document.Shares (d d' : Document) (ids : Set ℕ) : Prop where
  size : d'.size = d.size
  brokenBy : d'.brokenBy = d.brokenBy
  anchor? : ∀ id ∈ ids, d'.anchor? id = d.anchor? id
  closed : ∀ id ∈ ids, ∀ node, d.anchor? id = some node → node.Within ids

/-- Two nodes in two documents: the same one, two that differ as `R` says, or an alias for two that
do. -/
inductive Node.Twins (d d' : Document) (ids : Set ℕ) (R : Node → Node → Prop) : Node → Node → Prop
  | same {node : Node} (h : node.Within ids) : Twins d d' ids R node node
  | differ {node node' : Node} (h : R node node') : Twins d d' ids R node node'
  | behind {id : ℕ} {node node' : Node} (h : d.anchor? id = some node)
      (h' : d'.anchor? id = some node') (hR : R node node') :
      Twins d d' ids R (.alias id) (.alias id)

theorem Node.Twins.imp {d d' : Document} {ids : Set ℕ} {R R' : Node → Node → Prop}
    {node node' : Node} (h : node.Twins d d' ids R node') (himp : ∀ a b, R a b → R' a b) :
    node.Twins d d' ids R' node' := by
  cases h with
  | same h => exact .same h
  | differ h => exact .differ (himp _ _ h)
  | behind h h' hR => exact .behind h h' (himp _ _ hR)

/-- A node that is neither null nor an alias: a scalar in quotes, a plain one that spells something
else, or a collection. -/
inductive Node.IsSet : Node → Prop
  | quoted (anchor : Option ℕ) {s : Scalar} (h : s.style ≠ .plain) : IsSet (.scalar anchor s)
  | plain (anchor : Option ℕ) {text : String} (h : ¬(text = "" || isNull text) = true) :
    IsSet (.scalar anchor ⟨text, none, .plain⟩)
  | sequence (anchor : Option ℕ) (tag : Option Tag) (items : List Node) :
    IsSet (.sequence anchor tag items)
  | mapping (anchor : Option ℕ) (tag : Option Tag) (entries : List (Node × Node)) :
    IsSet (.mapping anchor tag entries)

theorem Node.IsSet.isTarget {node : Node} (h : node.IsSet) : node.IsTarget := by
  intro id heq
  rw [heq] at h
  cases h

namespace Node

/-- Two sequences whose items are in a relation. -/
inductive Lists (R : Node → Node → Prop) : Node → Node → Prop
  | mk (anchor anchor' : Option ℕ) (tag tag' : Option Tag) {items items' : List Node}
      (h : List.Forall₂ R items items') :
      Lists R (.sequence anchor tag items) (.sequence anchor' tag' items')

/-- Two mappings whose entries are in a relation. -/
inductive Tables (E : Node × Node → Node × Node → Prop) : Node → Node → Prop
  | mk (anchor anchor' : Option ℕ) (tag tag' : Option Tag) {entries entries' : List (Node × Node)}
      (h : List.Forall₂ E entries entries') :
      Tables E (.mapping anchor tag entries) (.mapping anchor' tag' entries')

/-- Two scalars without tags whose texts, where any scalar may stand, are in a relation. -/
inductive Texts (T : String → String → Prop) : Node → Node → Prop
  | mk (anchor anchor' : Option ℕ) {s s' : Scalar} (htag : s.tag = none) (htag' : s'.tag = none)
      {text text' : String} (h : s.untagged.fieldText? = some text)
      (h' : s'.untagged.fieldText? = some text') (hT : T text text') :
      Texts T (.scalar anchor s) (.scalar anchor' s')

/-- What is null has no text. -/
theorem isSet_of_fieldText? {s : Scalar} (htag : s.tag = none) {text : String}
    (htext : s.untagged.fieldText? = some text) (anchor : Option ℕ) : IsSet (.scalar anchor s) := by
  obtain ⟨spelled, tag, style⟩ := s
  cases htag
  by_cases hstyle : style = .plain
  · subst hstyle
    refine .plain anchor fun hnull => ?_
    have hatom : plainAtom spelled = .null := if_pos hnull
    have hnone : (plainAtom spelled).fieldText? = some text := htext
    rw [hatom] at hnone
    cases hnone
  · exact .quoted anchor hstyle

theorem Texts.isSet {T : String → String → Prop} {node node' : Node} (h : Texts T node node') :
    node.IsSet ∧ node'.IsSet := by
  cases h with
  | mk anchor anchor' htag htag' h h' hT =>
    exact ⟨isSet_of_fieldText? htag h anchor, isSet_of_fieldText? htag' h' anchor'⟩

theorem Lists.isSet {R : Node → Node → Prop} {node node' : Node} (h : Lists R node node') :
    node.IsSet ∧ node'.IsSet := by
  cases h with
  | mk anchor anchor' tag tag' h => exact ⟨.sequence anchor tag _, .sequence anchor' tag' _⟩

theorem Tables.isSet {E : Node × Node → Node × Node → Prop} {node node' : Node}
    (h : Tables E node node') : node.IsSet ∧ node'.IsSet := by
  cases h with
  | mk anchor anchor' tag tag' h => exact ⟨.mapping anchor tag _, .mapping anchor' tag' _⟩

variable {ids : Set ℕ} {anchor : Option ℕ} {tag : Option Tag}

theorem Within.item {items : List Node} (h : Within ids (.sequence anchor tag items)) {item : Node}
    (hitem : item ∈ items) : item.Within ids := by
  cases h with
  | sequence _ _ h => exact h item hitem

theorem Within.entry {entries : List (Node × Node)} (h : Within ids (.mapping anchor tag entries))
    {entry : Node × Node} (hentry : entry ∈ entries) :
    entry.1.Within ids ∧ entry.2.Within ids := by
  cases h with
  | mapping _ _ hkeys hvalues => exact ⟨hkeys entry hentry, hvalues entry hentry⟩

end Node

namespace Reading

variable {α β γ δ : Type} {d d' : Document} {ids : Set ℕ}

/-! ## Matching -/

/-- Whether two readings end alike in two documents, with the same count of aliases. -/
def Matches (d d' : Document) (S : α → β → Prop) (reading : Reading α) (reading' : Reading β) :
    Prop :=
  ∀ count, Attempt.Rel (fun read read' => S read.1 read'.1 ∧ read'.2 = read.2) (reading d count)
    (reading' d' count)

/-- Whether two readings give the same in two documents. -/
abbrev Agrees (d d' : Document) (reading reading' : Reading α) : Prop :=
  Matches d d' Eq reading reading'

variable {S : α → β → Prop} {T : γ → δ → Prop}

theorem matches_pure {a : α} {b : β} (h : S a b) : Matches d d' S (pure a) (pure b) :=
  fun _ => .ok rfl rfl ⟨h, rfl⟩

theorem matches_throw (fault : Fault) : Matches d d' S (throw fault) (throw fault) :=
  fun _ => .error rfl rfl

/-- Readings that yield related values match. -/
theorem Yields.matches {reading : Reading α} {reading' : Reading β} {a : α} {b : β}
    (h : Yields reading a) (h' : Yields reading' b) (hS : S a b) :
    Matches d d' S reading reading' :=
  fun count => .ok (h d count) (h' d' count) ⟨hS, rfl⟩

theorem Matches.imp {S' : α → β → Prop} {reading : Reading α} {reading' : Reading β}
    (h : Matches d d' S reading reading') (himp : ∀ a b, S a b → S' a b) :
    Matches d d' S' reading reading' :=
  fun count => (h count).imp fun _ _ hread => ⟨himp _ _ hread.1, hread.2⟩

theorem Matches.bind {reading : Reading α} {reading' : Reading β} {f : α → Reading γ}
    {f' : β → Reading δ} (h : Matches d d' S reading reading')
    (hf : ∀ a b, S a b → Matches d d' T (f a) (f' b)) :
    Matches d d' T (reading >>= f) (reading' >>= f') := by
  intro count
  refine (h count).bind fun p q hread => ?_
  show Attempt.Rel _ (f p.1 d p.2) (f' q.1 d' q.2)
  rw [hread.2]
  exact hf p.1 q.1 hread.1 p.2

/-- What both readings give has the properties that the first one ensures. -/
theorem Matches.and_ensures {reading : Reading α} {reading' : Reading β} {P : α → Prop}
    (h : Matches d d' S reading reading') (hP : EnsuresIn d reading P) :
    Matches d d' (fun a b => S a b ∧ P a) reading reading' := by
  intro count
  cases h count with
  | ok h h' hS => exact .ok h h' ⟨⟨hS.1, hP _ _ _ h⟩, hS.2⟩
  | error h h' => exact .error h h'

theorem Agrees.bind {reading reading' : Reading α} {f : α → Reading γ} {f' : α → Reading δ}
    (h : Agrees d d' reading reading') (hf : ∀ a, Matches d d' T (f a) (f' a)) :
    Matches d d' T (reading >>= f) (reading' >>= f') := by
  refine Matches.bind h fun a b hab => ?_
  rw [← hab]
  exact hf a

theorem agrees_pure (a : α) : Agrees d d' (pure a) (pure a) := matches_pure rfl

/-- What follows a fault is not read. -/
theorem matches_throw_bind {fault : Fault} {f : α → Reading γ} {f' : α → Reading δ} :
    Matches d d' T ((throw fault : Reading α) >>= f) ((throw fault : Reading α) >>= f') :=
  fun _ => .error rfl rfl

theorem agrees_pure_bind {a : α} {f f' : α → Reading β} (h : Agrees d d' (f a) (f' a)) :
    Agrees d d' ((pure a : Reading α) >>= f) ((pure a : Reading α) >>= f') :=
  h

theorem Agrees.map {reading reading' : Reading α} (h : Agrees d d' reading reading')
    (f : α → β) : Agrees d d' (f <$> reading) (f <$> reading') := by
  rw [map_eq_pure_bind, map_eq_pure_bind]
  exact h.bind fun a => agrees_pure (f a)

theorem Agrees.alike {T : String → String → Prop} {reading reading' : Reading α}
    (h : Agrees d d' reading reading') : Matches d d' (Alike T) reading reading' :=
  h.imp fun _ _ => .of_eq

theorem Matches.agrees {reading reading' : Reading α}
    (h : Matches d d' (Alike (· = ·)) reading reading') : Agrees d d' reading reading' :=
  h.imp fun _ _ => Alike.eq

theorem Matches.map_alike {T : String → String → Prop} {reading reading' : Reading α}
    (h : Matches d d' (Alike T) reading reading') (f : α → β) :
    Matches d d' (Alike T) (f <$> reading) (f <$> reading') := by
  rw [map_eq_pure_bind, map_eq_pure_bind]
  exact h.bind fun a b hab => matches_pure (hab.map f)

theorem Matches.located {reading : Reading α} {reading' : Reading β}
    (h : Matches d d' S reading reading') (path : Path) :
    Matches d d' S (Reading.located path reading) (Reading.located path reading') := by
  intro count
  unfold Reading.located
  cases h count with
  | ok h h' hS =>
    rw [h, h']
    exact .ok rfl rfl hS
  | @error fault h h' =>
    rw [h, h']
    cases fault with
    | complaint complaint place => cases place <;> exact .error rfl rfl
    | _ => exact .error rfl rfl

/-- An alias is counted before it is followed. -/
theorem resolve_alias_apply (id : ℕ) (d : Document) (count : ℕ) :
    resolve (.alias id) d count = if d.size * 100 < count + 1 then .error .tooOften
      else match d.anchor? id with
        | some node => .ok (node, count + 1)
        | none => brokenOff d (count + 1) := by
  have hread : ∀ {α : Type} (f : Document → Reading α), (read >>= f) d count = f d d count :=
    fun _ => rfl
  have hget : ∀ {α : Type} (f : ℕ → Reading α), (get >>= f) d count = f count d count :=
    fun _ => rfl
  unfold resolve
  dsimp only
  rw [hread, hget]
  split
  · rfl
  · show (match d.anchor? id with
      | some node => pure node
      | none => brokenOff : Reading Node) d (count + 1) = _
    cases d.anchor? id <;> rfl

/-- A node that is no alias is read as itself. -/
theorem resolve_of_isTarget {node : Node} (h : node.IsTarget) : resolve node = pure node := by
  unfold resolve
  split
  · next id => exact absurd rfl (h id)
  · rfl

theorem optional_of_isSet {read : Node → Reading α} {node : Node} (h : node.IsSet) :
    optional read node = some <$> read node := by
  unfold optional
  rw [resolve_of_isTarget h.isTarget, pure_bind]
  cases h with
  | quoted anchor h =>
    dsimp only
    rw [if_pos h]
  | plain anchor h => exact if_neg h
  | sequence anchor tag items => rfl
  | mapping anchor tag entries => rfl

/-- What is read from the target of a node is read from the node. -/
theorem ensuresIn_behind {node target : Node} (htarget : d.target? node = some target)
    (h : target.IsTarget) {path : Path} {f : Node → Reading α} {P : α → Prop}
    (hf : EnsuresIn d (located path (resolve target >>= f)) P) :
    EnsuresIn d (located path (resolve node >>= f)) P := by
  rw [resolve_of_isTarget h, pure_bind] at hf
  refine ((ensuresIn_resolve node).bind fun found hfound => ?_).located path
  obtain rfl : target = found := Option.some.inj (htarget.symm.trans hfound)
  intro count a count' ha
  refine hf count a count' ?_
  unfold located
  rw [ha]

/-! ## Nodes that documents share -/

section

variable (hd : d.Shares d' ids) {node node' : Node}
include hd

theorem matches_brokenOff : Matches d d' S (brokenOff : Reading α) (brokenOff : Reading β) := by
  have hread : Matches d d' (fun a b => b.brokenBy = a.brokenBy) read read :=
    fun _ => .ok rfl rfl ⟨hd.brokenBy, rfl⟩
  refine hread.bind fun a b hab => ?_
  rw [hab]
  split
  · exact matches_throw _
  · exact matches_throw _

/-- An alias leads to related nodes in both documents if its anchor does. -/
theorem matches_resolve_alias {S : Node → Node → Prop} {id : ℕ}
    (h : Option.Rel S (d.anchor? id) (d'.anchor? id)) :
    Matches d d' S (resolve (.alias id)) (resolve (.alias id)) := by
  intro count
  rw [resolve_alias_apply, resolve_alias_apply, hd.size]
  split
  · exact .error rfl rfl
  · generalize d.anchor? id = target, d'.anchor? id = target' at h
    cases h with
    | some hS => exact .ok rfl rfl ⟨hS, rfl⟩
    | none => exact matches_brokenOff hd (count + 1)

/-- A shared node leads to the same shared node in both documents. -/
theorem matches_resolve (h : node.Within ids) :
    Matches d d' (fun target target' => target' = target ∧ target.Within ids) (resolve node)
      (resolve node) := by
  cases h with
  | @«alias» id hid =>
    refine matches_resolve_alias hd ?_
    have hclosed := hd.closed id hid
    rw [hd.anchor? id hid]
    cases hanchor : d.anchor? id with
    | none => exact .none
    | some target => exact .some ⟨rfl, hclosed target hanchor⟩
  | scalar anchor s => exact matches_pure ⟨rfl, .scalar anchor s⟩
  | sequence anchor tag hitems => exact matches_pure ⟨rfl, .sequence anchor tag hitems⟩
  | mapping anchor tag hkeys hvalues => exact matches_pure ⟨rfl, .mapping anchor tag hkeys hvalues⟩
  | cut => exact matches_pure ⟨rfl, .cut⟩

/-- Reading a shared node agrees if reading what it leads to does. -/
theorem agrees_resolve_bind (h : node.Within ids) {f f' : Node → Reading α}
    (hf : ∀ target, target.Within ids → Agrees d d' (f target) (f' target)) :
    Agrees d d' (resolve node >>= f) (resolve node >>= f') := by
  refine (matches_resolve hd h).bind ?_
  rintro target _ ⟨rfl, htarget⟩
  exact hf _ htarget

/-- What is read behind an alias decides. -/
theorem matches_behind {id : ℕ} {target target' : Node} (h : d.anchor? id = some target)
    (h' : d'.anchor? id = some target') (htarget : target.IsTarget) (htarget' : target'.IsTarget)
    {path : Path} {f : Node → Reading α} {f' : Node → Reading β}
    (hf : Matches d d' S (located path (resolve target >>= f))
      (located path (resolve target' >>= f'))) :
    Matches d d' S (located path (resolve (.alias id) >>= f))
      (located path (resolve (.alias id) >>= f')) := by
  intro count
  have hread := hf (count + 1)
  rw [resolve_of_isTarget htarget, resolve_of_isTarget htarget', pure_bind, pure_bind] at hread
  unfold located at hread ⊢
  rw [bind_apply, bind_apply, resolve_alias_apply, resolve_alias_apply, h, h', hd.size]
  split_ifs
  · exact .error rfl rfl
  · exact hread

/-- Behind the aliases twins are still the same node, or two that differ. -/
theorem matches_resolve_twins {R : Node → Node → Prop}
    (hR : ∀ target target', R target target' → target.IsSet ∧ target'.IsSet)
    (h : node.Twins d d' ids R node') :
    Matches d d' (fun target target' => (target' = target ∧ target.Within ids) ∨ R target target')
      (resolve node) (resolve node') := by
  cases h with
  | same h => exact (matches_resolve hd h).imp fun _ _ => .inl
  | differ h =>
    obtain ⟨hset, hset'⟩ := hR _ _ h
    exact (yields_resolve hset.isTarget).matches (yields_resolve hset'.isTarget) (.inr h)
  | behind h h' hdiffer =>
    refine matches_resolve_alias hd ?_
    rw [h, h']
    exact .some (.inr hdiffer)

/-! ## Single values -/

theorem agrees_mismatch (expected : Expected) (node : Node) :
    Agrees d d' (mismatch expected node : Reading α) (mismatch expected node) := by
  unfold mismatch
  split
  · split
    · exact matches_throw _
    · exact matches_throw _
  · exact matches_throw _
  · exact matches_throw _
  all_goals exact matches_brokenOff hd

/-- A shared text is read the same in both documents. -/
theorem agrees_text (h : node.Within ids) (expected : Expected) (path : Path) :
    Agrees d d' (text expected path node) (text expected path node) := by
  refine (agrees_resolve_bind hd h fun target _ => ?_).located path
  split
  · exact agrees_pure _
  · exact agrees_mismatch hd expected _

/-- A shared flag is read the same in both documents. -/
theorem agrees_flag (h : node.Within ids) (path : Path) :
    Agrees d d' (flag path node) (flag path node) := by
  refine (agrees_resolve_bind hd h fun target _ => ?_).located path
  split
  · split
    · exact agrees_pure _
    · exact agrees_mismatch hd .flag _
  · exact agrees_mismatch hd .flag _

/-- A shared port is read the same in both documents. -/
theorem agrees_port (h : node.Within ids) (path : Path) :
    Agrees d d' (port path node) (port path node) := by
  refine (agrees_resolve_bind hd h fun target _ => ?_).located path
  split
  · split
    · split
      · exact agrees_pure _
      · exact matches_throw _
    · exact agrees_mismatch hd .port _
  · exact agrees_mismatch hd .port _

/-- Whether a node is null shows once its aliases are resolved, and what differs is not. -/
theorem matches_optional {T : String → String → Prop} {R : Node → Node → Prop}
    (hR : ∀ target target', R target target' → target.IsSet ∧ target'.IsSet)
    {read : Node → Reading α}
    (hsame : ∀ target : Node, target.Within ids →
      Matches d d' (Alike T) (read target) (read target))
    (hdiffer : ∀ target target', R target target' →
      Matches d d' (Alike T) (read target) (read target'))
    (h : node.Twins d d' ids R node') :
    Matches d d' (Alike T) (optional read node) (optional read node') := by
  refine (matches_resolve_twins hd hR h).bind ?_
  rintro target target' (⟨rfl, hwithin⟩ | hdiffers)
  · have hread := (hsame _ hwithin).map_alike some
    -- the same node is read in both documents, so the same way is taken
    split
    · split
      · exact hread
      · split
        · split
          · exact matches_pure (.refl none)
          · exact matches_throw _
        · exact hread
        · split
          · exact matches_pure (.refl none)
          · exact hread
    · exact matches_brokenOff hd
    · exact hread
  · -- neither is null, so what is read where they stand is what is read of them alone
    obtain ⟨hset, hset'⟩ := hR _ _ hdiffers
    have hread : Matches d d' (Alike T) (optional read target) (optional read target') := by
      rw [optional_of_isSet hset, optional_of_isSet hset']
      exact (hdiffer _ _ hdiffers).map_alike some
    unfold optional at hread
    rw [resolve_of_isTarget hset.isTarget, resolve_of_isTarget hset'.isTarget, pure_bind,
      pure_bind] at hread
    exact hread

end

/-! ## Collections -/

/-- Items that match one by one match as a whole. -/
theorem matches_items {T : String → String → Prop} {read read' : Path → Node → Reading α}
    {nodes nodes' : List Node}
    (h : List.Forall₂ (fun node node' =>
      ∀ path, Matches d d' (Alike T) (read path node) (read' path node')) nodes nodes')
    (path : Path) (index : ℕ) :
    Matches d d' (Alike T) (items read path index nodes) (items read' path index nodes') := by
  induction h generalizing index with
  | nil => exact matches_pure (.refl [])
  | cons hnode _ ih =>
    exact (hnode _).bind fun a b hab => (ih (index + 1)).bind fun as bs hall =>
      matches_pure (hab.map₂ hall List.cons)

section

variable (hd : d.Shares d' ids) {node node' : Node}
include hd

/-- Lists are read alike if their items are. -/
theorem matches_list {T : String → String → Prop} {R : Node → Node → Prop}
    {read : Place → Node → Reading α}
    (hread : ∀ place node node', node.Twins d d' ids R node' →
      Matches d d' (Alike T) (read place node) (read place node'))
    (h : node.Twins d d' ids (Node.Lists (Node.Twins d d' ids R)) node') (place : Place) :
    Matches d d' (Alike T) (list read place node) (list read place node') := by
  have hitems : ∀ {nodes nodes' : List Node}, List.Forall₂ (Node.Twins d d' ids R) nodes nodes' →
      ∀ depth, Matches d d' (Alike T) (items (fun path => read ⟨depth, path⟩) place.path 0 nodes)
        (items (fun path => read ⟨depth, path⟩) place.path 0 nodes') := fun hall depth =>
    matches_items (hall.imp fun node node' hnode path => hread ⟨depth, path⟩ node node' hnode) _ 0
  refine ((matches_resolve_twins hd (fun _ _ h => h.isSet) h).bind ?_).located place.path
  rintro target target' (⟨rfl, hwithin⟩ | hlists)
  · split
    · next anchor tag nodes =>
      split
      · exact matches_throw _
      · exact hitems (List.forall₂_same.mpr fun item hitem => .same (hwithin.item hitem)) _
    · split
      · exact matches_pure (.refl [])
      · exact (agrees_mismatch hd .list _).alike
    · exact (agrees_mismatch hd .list _).alike
  · obtain ⟨anchor, anchor', tag, tag', hall⟩ := hlists
    dsimp only
    split
    · exact matches_throw _
    · exact hitems hall _

/-- Mappings are read alike if their entries are. -/
theorem matches_mapping {T : String → String → Prop} {E : Node × Node → Node × Node → Prop}
    {expected : Expected} {read : ℕ → List (Node × Node) → Reading α}
    (hsame : ∀ depth entries, (∀ entry ∈ entries, entry.1.Within ids ∧ entry.2.Within ids) →
      Matches d d' (Alike T) (read depth entries) (read depth entries))
    (hdiffer : ∀ depth entries entries', List.Forall₂ E entries entries' →
      Matches d d' (Alike T) (read depth entries) (read depth entries'))
    (h : node.Twins d d' ids (Node.Tables E) node') (place : Place) :
    Matches d d' (Alike T) (mapping expected read place node)
      (mapping expected read place node') := by
  refine ((matches_resolve_twins hd (fun _ _ h => h.isSet) h).bind ?_).located place.path
  rintro target target' (⟨rfl, hwithin⟩ | htables)
  · split
    · split
      · exact matches_throw _
      · exact hsame _ _ fun entry hentry => hwithin.entry hentry
    · split
      · exact hsame _ [] (List.forall_mem_nil _)
      · exact (agrees_mismatch hd expected _).alike
    · exact (agrees_mismatch hd expected _).alike
  · obtain ⟨anchor, anchor', tag, tag', hall⟩ := htables
    dsimp only
    split
    · exact matches_throw _
    · exact hdiffer _ _ _ hall

end

/-! ## Free values -/

/-- Whether a reading of nodes gives the same in two documents where they share a node. -/
def Steady (d d' : Document) (ids : Set ℕ) (read : Path → Node → Reading α) : Prop :=
  ∀ path (node : Node), node.Within ids → Agrees d d' (read path node) (read path node)

theorem Steady.items {read : Path → Node → Reading α} (hread : Steady d d' ids read)
    {nodes : List Node} (h : ∀ node ∈ nodes, node.Within ids) (path : Path) (index : ℕ) :
    Agrees d d' (Reading.items read path index nodes) (Reading.items read path index nodes) :=
  (matches_items (List.forall₂_same.mpr fun node hnode path =>
    (hread path node (h node hnode)).alike) path index).agrees

/-- The shared entries of a table are read the same in both documents. -/
theorem agrees_tableEntries {read : Path → Node → Reading Value} (hread : Steady d d' ids read)
    (path : Path) {entries : List (Node × Node)}
    (h : ∀ entry ∈ entries, entry.1.Within ids ∧ entry.2.Within ids)
    (before : List (Value × Value)) :
    Agrees d d' (tableEntries (read path) read path entries before)
      (tableEntries (read path) read path entries before) := by
  induction entries generalizing before with
  | nil => exact agrees_pure before.reverse
  | cons entry rest ih =>
    obtain ⟨keyNode, node⟩ := entry
    obtain ⟨⟨hkey, hvalue⟩, hrest⟩ := List.forall_mem_cons.mp h
    refine (hread path keyNode hkey).bind fun key => ?_
    split
    · exact matches_throw_bind
    · exact (hread _ node hvalue).bind fun value => ih hrest _

theorem agrees_scalarValue (s : Scalar) : Agrees d d' (scalarValue s) (scalarValue s) := by
  unfold scalarValue
  split
  · exact matches_throw _
  · split
    · exact agrees_pure _
    · exact matches_throw _

/-- The shared entries below a scalar field are read the same in both documents. -/
theorem agrees_contentEntries {read : Path → Node → Reading (Option Atom)}
    (hread : Steady d d' ids read) (path : Path) {entries : List (Node × Node)}
    (h : ∀ entry ∈ entries, entry.1.Within ids ∧ entry.2.Within ids) :
    Agrees d d' (contentEntries read path entries) (contentEntries read path entries) := by
  induction entries with
  | nil => exact agrees_pure ()
  | cons entry rest ih =>
    obtain ⟨⟨hkey, hvalue⟩, hrest⟩ := List.forall_mem_cons.mp h
    exact (hread _ _ hkey).bind fun _ => (hread _ _ hvalue).bind fun _ => ih hrest

section

variable (hd : d.Shares d' ids) {node node' : Node}
include hd

/-- A shared free value is read the same if its parts are. -/
theorem steady_valueBy {inner : Option (Path → Node → Reading Value)}
    (hinner : ∀ read, inner = some read → Steady d d' ids read) :
    Steady d d' ids (valueBy inner) := by
  intro path node h
  refine (agrees_resolve_bind hd h fun target htarget => ?_).located path
  cases htarget with
  | scalar anchor s =>
    dsimp only
    split
    · exact (agrees_scalarValue _).map _
    · exact agrees_scalarValue s
  | sequence anchor tag hitems =>
    cases inner with
    | none => exact matches_throw_bind
    | some read =>
      exact agrees_pure_bind <|
        ((hinner read rfl).items hitems path 0).bind fun items => agrees_pure _
  | mapping anchor tag hkeys hvalues =>
    cases inner with
    | none => exact matches_throw_bind
    | some read =>
      have hentries := fun entry hentry => (⟨hkeys entry hentry, hvalues entry hentry⟩ : _ ∧ _)
      exact agrees_pure_bind <|
        (agrees_tableEntries (hinner read rfl) path hentries []).bind fun entries => agrees_pure _
  | «alias» h => exact matches_brokenOff hd
  | cut => exact matches_brokenOff hd

/-- A shared free value is read the same in both documents. -/
theorem steady_value (depth : ℕ) : Steady d d' ids (value depth) := by
  induction depth with
  | zero => exact steady_valueBy hd nofun
  | succ depth ih =>
    refine steady_valueBy hd fun read hread => ?_
    cases hread
    exact ih

/-- A shared truth is read the same in both documents. -/
theorem agrees_truth (h : node.Within ids) (place : Place) :
    Agrees d d' (truth place node) (truth place node) := by
  have hvalue : Agrees d d' (optional (value place.depth place.path) node)
      (optional (value place.depth place.path) node) :=
    (matches_optional hd (R := fun _ _ => False) (fun _ _ => False.elim)
      (fun target htarget => (steady_value hd place.depth place.path target htarget).alike)
      (fun _ _ => False.elim) (.same h)).agrees
  refine hvalue.bind fun value => ?_
  split
  all_goals exact agrees_pure _

/-- Shared options are read the same, one after the other. -/
theorem agrees_optionEntries (depth : ℕ) (path : Path) {entries : List (Node × Node)}
    (h : ∀ entry ∈ entries, entry.1.Within ids ∧ entry.2.Within ids) (options : Options) :
    Agrees d d' (optionEntries depth path entries options)
      (optionEntries depth path entries options) := by
  induction entries generalizing options with
  | nil => exact agrees_pure options
  | cons entry rest ih =>
    obtain ⟨⟨hkey, hvalue⟩, hrest⟩ := List.forall_mem_cons.mp h
    exact (agrees_text hd hkey .text path).bind fun name =>
      (steady_value hd depth _ _ hvalue).bind fun value => ih hrest _

/-- The shared options of a folder are read the same in both documents. -/
theorem agrees_options (h : node.Within ids) (place : Place) :
    Agrees d d' (options place node) (options place node) := by
  refine (matches_mapping hd (E := fun _ _ => False)
    (fun depth entries hentries => (agrees_optionEntries hd depth place.path hentries []).alike)
    (fun depth entries entries' hnone => ?_) (.same h) place).agrees
  cases hnone with
  | nil => exact matches_pure (.refl [])
  | cons hfalse _ => exact hfalse.elim

/-! ## Scalars of any type -/

omit hd in
theorem agrees_refuseOwn_bind (tag : Option Tag) {f f' : Unit → Reading α}
    (hf : Agrees d d' (f ()) (f' ())) :
    Agrees d d' (refuseOwn tag >>= f) (refuseOwn tag >>= f') := by
  unfold refuseOwn
  split
  · exact matches_throw_bind
  · exact agrees_pure_bind hf

theorem steady_contentBy {inner : Option (Path → Node → Reading (Option Atom))}
    (hinner : ∀ read, inner = some read → Steady d d' ids read) :
    Steady d d' ids (contentBy inner) := by
  intro path node h
  refine (agrees_resolve_bind hd h fun target htarget => ?_).located path
  cases htarget with
  | scalar anchor s =>
    refine agrees_refuseOwn_bind s.tag ?_
    split
    · exact matches_throw _
    · exact matches_throw _
    · exact agrees_pure _
  | sequence anchor tag hitems =>
    refine agrees_refuseOwn_bind tag ?_
    cases inner with
    | none => exact matches_throw_bind
    | some read =>
      exact agrees_pure_bind <|
        ((hinner read rfl).items hitems path 0).bind fun _ => agrees_pure _
  | mapping anchor tag hkeys hvalues =>
    refine agrees_refuseOwn_bind tag ?_
    cases inner with
    | none => exact matches_throw_bind
    | some read =>
      have hentries := fun entry hentry => (⟨hkeys entry hentry, hvalues entry hentry⟩ : _ ∧ _)
      exact agrees_pure_bind <|
        (agrees_contentEntries (hinner read rfl) path hentries).bind fun _ => agrees_pure _
  | «alias» h => exact matches_brokenOff hd
  | cut => exact matches_brokenOff hd

/-- What is below a shared scalar field is found the same in both documents. -/
theorem steady_content (depth : ℕ) : Steady d d' ids (content depth) := by
  induction depth with
  | zero => exact steady_contentBy hd nofun
  | succ depth ih =>
    refine steady_contentBy hd fun read hread => ?_
    cases hread
    exact ih

omit hd in
/-- What has a text is no integer that is too long. -/
theorem yields_content_of_fieldText? {s : Scalar} (htag : s.tag = none) {text : String}
    (htext : s.untagged.fieldText? = some text) (depth : ℕ) (path : Path) (anchor : Option ℕ) :
    Yields (content depth path (.scalar anchor s)) (some s.untagged) := by
  refine yields_content_scalar htag rfl (fun n hwide => ?_) depth path anchor
  rw [hwide] at htext
  cases htext

/-- Scalars may differ in what they are read as, but what that has for a text is in the relation. -/
theorem matches_content {T : String → String → Prop}
    (h : node.Twins d d' ids (Node.Texts T) node') (depth : ℕ) (path : Path) :
    Matches d d' (fun found found' => found' = found ∨ ∃ text text',
        found.bind Atom.fieldText? = some text ∧ found'.bind Atom.fieldText? = some text' ∧
          T text text')
      (content depth path node) (content depth path node') := by
  have hscalar : ∀ {target target' : Node}, Node.Texts T target target' →
      Matches d d' (fun found found' => found' = found ∨ ∃ text text',
          found.bind Atom.fieldText? = some text ∧ found'.bind Atom.fieldText? = some text' ∧
            T text text')
        (content depth path target) (content depth path target') := by
    rintro _ _ ⟨anchor, anchor', htag, htag', htext, htext', hT⟩
    exact (yields_content_of_fieldText? htag htext depth path anchor).matches
      (yields_content_of_fieldText? htag' htext' depth path anchor')
      (.inr ⟨_, _, htext, htext', hT⟩)
  cases h with
  | same h => exact (steady_content hd depth path node h).imp fun _ _ heq => .inl heq.symm
  | differ h => exact hscalar h
  | behind h h' hR =>
    have hread := hscalar hR
    obtain ⟨hset, hset'⟩ := hR.isSet
    cases depth with
    | zero => exact matches_behind hd h h' hset.isTarget hset'.isTarget hread
    | succ depth => exact matches_behind hd h h' hset.isTarget hset'.isTarget hread

/-- Scalar fields with related texts are read as these texts. -/
theorem matches_scalarText {T : String → String → Prop}
    (h : node.Twins d d' ids (Node.Texts T) node') (place : Place) :
    Matches d d' (Alike T) (scalarText place node) (scalarText place node') := by
  refine (matches_content hd h place.depth place.path).bind ?_
  rintro found found' (rfl | ⟨text, text', htext, htext', hT⟩)
  · split
    · exact matches_pure (.refl _)
    · exact matches_throw _
  · rw [htext, htext']
    exact matches_pure (.of_rel hT)

end

end Reading

end Yaml

end Provision
