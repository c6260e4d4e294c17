import Provision.Command.Run
import Provision.Proofs.Attempt
import Provision.Proofs.Json.Pretty
import Provision.Proofs.Yaml.Tree

/-!
# The two texts of a plan

A plan is printed as JSON from its tree, and as YAML from that tree with the members of its objects
sorted. The JSON text is read back as that tree, and so both texts denote the same tree but for the
order of members. In the JSON text the options of a folder stand in the order in which they were
declared; in the YAML text they stand in the order of their names.
-/

namespace Provision

/-! ## Values keyed by texts -/

/-- The values whose tables are keyed by texts, no text twice in a table. -/
inductive Value.TextKeyed : Value → Prop
  | null : TextKeyed .null
  | bool (b : Bool) : TextKeyed (.bool b)
  | int {n : ℤ} (h : IsInt64 n) : TextKeyed (.int n)
  | float (x : Double) : TextKeyed (.float x)
  | text (s : String) : TextKeyed (.text s)
  | list {items : List Value} (h : ∀ item ∈ items, TextKeyed item) : TextKeyed (.list items)
  | table {members : List (String × Value)} (hnames : (members.map (·.1)).Nodup)
      (h : ∀ member ∈ members, TextKeyed member.2) :
    TextKeyed (.table (members.map fun (name, value) => (.text name, value)))
  | tagged (name : String) {value : Value} (h : TextKeyed value) : TextKeyed (.tagged name value)

namespace Json

/-- Items that all give well-formed trees give a list of them. -/
theorem wellFormed_ofItems {items : List Value}
    (h : ∀ item ∈ items, ∃ tree, ofValue item = .ok tree ∧ tree.WellFormed) :
    ∃ trees, ofItems items = .ok trees ∧ ∀ tree ∈ trees, tree.WellFormed := by
  induction items with
  | nil => exact ⟨[], rfl, nofun⟩
  | cons item items ih =>
    obtain ⟨⟨tree, htree, hformed⟩, hrest⟩ := List.forall_mem_cons.mp h
    obtain ⟨trees, htrees, hformeds⟩ := ih hrest
    refine ⟨tree :: trees, ?_, List.forall_mem_cons.mpr ⟨hformed, hformeds⟩⟩
    rw [ofItems, htree, htrees]
    rfl

/-- Members under text keys give an object with the same names, in the same order. -/
theorem wellFormed_ofEntries {members : List (String × Value)}
    (h : ∀ member ∈ members, ∃ tree, ofValue member.2 = .ok tree ∧ tree.WellFormed) :
    ∃ trees, ofEntries (members.map fun (name, value) => (.text name, value)) = .ok trees ∧
      trees.map (·.1) = members.map (·.1) ∧ ∀ member ∈ trees, member.2.WellFormed := by
  induction members with
  | nil => exact ⟨[], rfl, rfl, nofun⟩
  | cons member members ih =>
    obtain ⟨name, value⟩ := member
    obtain ⟨⟨tree, htree, hformed⟩, hrest⟩ := List.forall_mem_cons.mp h
    obtain ⟨trees, htrees, hnames, hformeds⟩ := ih hrest
    refine ⟨(name, tree) :: trees, ?_, ?_, List.forall_mem_cons.mpr ⟨hformed, hformeds⟩⟩
    · rw [List.map_cons, ofEntries, keyText, htree, htrees]
      rfl
    · rw [List.map_cons, List.map_cons, hnames]

/-- A value with text keys throughout gives a well-formed tree. -/
theorem wellFormed_ofValue {value : Value} (h : value.TextKeyed) :
    ∃ tree, ofValue value = .ok tree ∧ tree.WellFormed := by
  induction h with
  | null => exact ⟨.null, rfl, .null⟩
  | bool b => exact ⟨.bool b, rfl, .bool b⟩
  | @int n h => exact ⟨.int n, rfl, .int h⟩
  -- a number that is not finite is written as null
  | float x =>
    refine ⟨_, rfl, ?_⟩
    split
    · next hfinite => exact .float hfinite
    · exact .null
  | text s => exact ⟨.text s, rfl, .text s⟩
  | list _ ih =>
    obtain ⟨trees, htrees, hformed⟩ := wellFormed_ofItems ih
    refine ⟨.list trees, ?_, .list hformed⟩
    rw [ofValue, htrees]
    rfl
  | table hdistinct _ ih =>
    obtain ⟨trees, htrees, hnames, hformed⟩ := wellFormed_ofEntries ih
    refine ⟨.object trees, ?_, .object (hnames ▸ hdistinct) hformed⟩
    rw [ofValue, htrees]
    rfl
  | tagged name _ ih =>
    obtain ⟨tree, htree, hformed⟩ := ih
    refine ⟨.object [("!" ++ name, tree)], ?_,
      .object (List.pairwise_singleton _ _) (by simpa using hformed)⟩
    rw [ofValue, htree]
    rfl

end Json

/-- Options without a name twice whose values are keyed by texts. -/
structure Options.TextKeyed (options : Options) : Prop where
  nodup : (options.map (·.1)).Nodup
  values : ∀ option ∈ options, option.2.TextKeyed

/-- Options with text keys give a well-formed object with their names. -/
theorem Options.wellFormed_toJson {options : Options} (h : options.TextKeyed) :
    ∃ members, options.toJson = .ok (.object members) ∧
      members.map (·.1) = options.map (·.1) ∧ (Json.object members).WellFormed := by
  obtain ⟨members, hmembers, hnames, hformed⟩ :=
    Json.wellFormed_ofEntries fun option hoption => Json.wellFormed_ofValue (h.values option hoption)
  refine ⟨members, ?_, hnames, .object (hnames ▸ h.nodup) hformed⟩
  rw [toJson, Json.ofValue, hmembers]
  rfl

/-! ## Plans as trees -/

namespace Json

theorem wellFormed_texts (texts : List String) : (Json.list (texts.map .text)).WellFormed := by
  apply WellFormed.list
  intro tree htree
  obtain ⟨text, -, rfl⟩ := List.mem_map.mp htree
  exact .text text

theorem wellFormed_ofText? (text : Option String) : (ofText? text).WellFormed := by
  rcases text with _ | text
  · exact .null
  · exact .text text

theorem wellFormed_ofPort? (port : Option UInt16) : (ofPort? port).WellFormed := by
  rcases port with _ | n
  · exact .null
  · have hn : IsInt64 n.toNat := by
      have hlt := n.toNat_lt
      unfold IsInt64
      norm_num
      omega
    exact .int hn

/-- A member that may be left out has at most its own name. -/
theorem names_member? (name : String) (text : Option String) :
    ((member? name text).map (·.1)).Sublist [name] := by
  rcases text with _ | text
  · exact List.nil_sublist _
  · exact List.Sublist.refl _

theorem wellFormed_member? (name : String) (text : Option String) :
    ∀ member ∈ member? name text, member.2.WellFormed := by
  rcases text with _ | text
  · exact nofun
  · exact List.forall_mem_singleton.mpr (.text text)

/-- What an object has under a name. -/
def child? (name : String) : Json → Option Json
  | .object members => members.lookup name
  | _ => none

/-- What a list has in a place. -/
def item? (i : ℕ) : Json → Option Json
  | .list items => items[i]?
  | _ => none

/-- The names of the members of an object, in order. -/
def names? : Json → Option (List String)
  | .object members => some (members.map (·.1))
  | _ => none

/-- A member of the sorted tree is the sorted member. -/
theorem WellFormed.child?_sorted {tree found : Json} {name : String} (h : tree.WellFormed)
    (hfound : tree.child? name = some found) :
    found.WellFormed ∧ tree.sorted.child? name = some found.sorted := by
  cases h with
  | object hnames hformed =>
    obtain ⟨before, after, rfl, -⟩ := List.lookup_eq_some_iff.mp hfound
    have hmem : (name, found) ∈ before ++ (name, found) :: after :=
      List.mem_append_right _ List.mem_cons_self
    exact ⟨hformed _ hmem, lookup_sortMembers hnames hmem⟩
  | _ => cases hfound

/-- An item of the sorted tree is the sorted item, at the same place. -/
theorem WellFormed.item?_sorted {tree found : Json} {i : ℕ} (h : tree.WellFormed)
    (hfound : tree.item? i = some found) :
    found.WellFormed ∧ tree.sorted.item? i = some found.sorted := by
  cases h with
  | @list items hformed =>
    have hitem : items[i]? = some found := hfound
    refine ⟨hformed found (List.mem_of_getElem? hitem), ?_⟩
    show (sortedItems items)[i]? = some found.sorted
    rw [sortedItems_eq_map, List.getElem?_map, hitem]
    rfl
  | _ => cases hfound

/-- Sorting changes the order of the names and nothing else about them. -/
theorem WellFormed.names?_sorted {tree : Json} {names : List String} (h : tree.WellFormed)
    (hnames : tree.names? = some names) : ∃ sorted, tree.sorted.names? = some sorted ∧
      sorted.Perm names ∧ sorted.Pairwise (· < ·) := by
  cases h with
  | @object members hdistinct _ =>
    rw [← names_sortedMembers] at hdistinct
    cases hnames
    refine ⟨_, rfl, ?_, pairwise_sortMembers hdistinct⟩
    rw [← names_sortedMembers members]
    exact (perm_sortMembers hdistinct).map _
  | _ => cases hnames

end Json

namespace Directive

/-- Whether the options of a directive, if it has any, are keyed by texts. -/
def TextKeyed (d : Directive) : Prop :=
  ∀ folder, d = .syncedFolder folder → folder.options.TextKeyed

/-- No directive names a member twice, and none takes the name of the kind. -/
theorem wellFormed_members {d : Directive} (h : d.TextKeyed) : ∃ members, d.members = .ok members ∧
    ("kind" :: members.map (·.1)).Nodup ∧ ∀ member ∈ members, member.2.WellFormed := by
  cases d with
  | ssh session =>
    refine ⟨_, rfl, by simp, ?_⟩
    simpa using ⟨.text session.shell, .bool session.forwardAgent⟩
  | machine machine =>
    refine ⟨_, rfl, by simp, ?_⟩
    simpa using ⟨.text machine.name, .text machine.box, .text machine.version⟩
  | provider tuning =>
    refine ⟨_, rfl, by simp, ?_⟩
    have hpairs : (Json.list (tuning.customizations.map fun pair =>
        .list [.text pair.1, .text pair.2])).WellFormed := by
      apply Json.WellFormed.list
      intro tree htree
      obtain ⟨pair, -, rfl⟩ := List.mem_map.mp htree
      exact Json.wellFormed_texts [pair.1, pair.2]
    simpa using ⟨.text tuning.provider, .text tuning.name, hpairs, .bool tuning.gui⟩
  | network network =>
    refine ⟨_, rfl, ?_, ?_⟩
    -- a member that is left out leaves fewer names and no other ones
    · have hnames := ((Json.names_member? "type" network.kind).append
        (Json.names_member? "ip" network.ip)).append (Json.names_member? "bridge" network.bridge)
      rw [List.map_append, List.map_append]
      exact (hnames.cons_cons "kind").nodup (by decide)
    · simp only [List.forall_mem_append]
      exact ⟨⟨Json.wellFormed_member? _ _, Json.wellFormed_member? _ _⟩, Json.wellFormed_member? _ _⟩
  | forwardedPort port =>
    refine ⟨_, rfl, by simp, ?_⟩
    simpa using ⟨Json.wellFormed_ofPort? port.guest, Json.wellFormed_ofPort? port.host,
      .text port.protocol, .bool port.autoCorrect⟩
  | shell shell =>
    refine ⟨_, rfl, ?_, ?_⟩
    -- a script without arguments has no such member
    · have hargs : ((if shell.args.isEmpty then [] else
          [("args", Json.list (shell.args.map .text))]).map (·.1)).Sublist ["args"] := by
        split
        · exact List.nil_sublist _
        · exact List.Sublist.refl _
      have hnames := (((Json.names_member? "name" shell.name).append
        (List.Sublist.refl ["source"])).append hargs).append (List.Sublist.refl ["privileged"])
      rw [List.map_append, List.map_append, List.map_append]
      exact (hnames.cons_cons "kind").nodup (by decide)
    · have hsource : shell.source.toJson.WellFormed := by
        rcases shell.source with file | body
        · exact .object (List.pairwise_singleton _ _) (by simpa using .text file)
        · exact .object (List.pairwise_singleton _ _) (by simpa using .text body)
      simp only [List.forall_mem_append, List.forall_mem_singleton]
      refine ⟨⟨⟨Json.wellFormed_member? _ _, hsource⟩, ?_⟩, .bool shell.privileged⟩
      split
      · exact nofun
      · exact List.forall_mem_singleton.mpr (Json.wellFormed_texts shell.args)
  | file upload =>
    refine ⟨_, rfl, by simp, ?_⟩
    simpa using ⟨.text upload.source, .text upload.destination⟩
  | syncedFolder folder =>
    obtain ⟨members, hmembers, -, hformed⟩ := Options.wellFormed_toJson (h folder rfl)
    refine ⟨_, by rw [Directive.members, hmembers]; rfl, by simp, ?_⟩
    simpa using ⟨.text folder.map, .text folder.guestPath, Json.wellFormed_ofText? folder.kind, hformed⟩
  | bindFolder folder =>
    refine ⟨_, rfl, by simp, ?_⟩
    simpa using ⟨.text folder.source, .text folder.target⟩

/-- A directive with text keys gives a well-formed tree. -/
theorem wellFormed_toJson {d : Directive} (h : d.TextKeyed) :
    ∃ tree, d.toJson = .ok tree ∧ tree.WellFormed := by
  obtain ⟨members, hmembers, hnames, hformed⟩ := wellFormed_members h
  refine ⟨.object (("kind", .text d.kind) :: members), ?_, .object hnames ?_⟩
  · rw [toJson, hmembers]
    rfl
  · exact List.forall_mem_cons.mpr ⟨.text d.kind, hformed⟩

/-- The names of a folder's options stand in its tree as they stand in the folder. -/
theorem names?_options {folder : SyncedFolder} {tree : Json} (h : folder.options.TextKeyed)
    (htree : (Directive.syncedFolder folder).toJson = .ok tree) :
    (tree.child? "options").bind Json.names? = some (folder.options.map (·.1)) := by
  obtain ⟨members, hmembers, hnames, -⟩ := Options.wellFormed_toJson h
  rw [toJson, Directive.members, hmembers] at htree
  cases htree
  exact congrArg some hnames

end Directive

/-- The names of the options of the directive in a place, in the order in which a plan's tree has
them. -/
def Json.optionNames? (i : ℕ) (tree : Json) : Option (List String) := do
  let directives ← tree.child? "directives"
  let directive ← directives.item? i
  let options ← directive.child? "options"
  options.names?

namespace Plan

/-- Whether the options of all folders of a plan are keyed by texts. -/
def TextKeyed (plan : Plan) : Prop := ∀ d ∈ plan.directives, d.TextKeyed

/-- Whether a plan's tree has the options of every folder in the order of the directive. -/
def OptionsInOrder (plan : Plan) (tree : Json) : Prop :=
  ∀ i folder, plan.directives[i]? = some (.syncedFolder folder) →
    tree.optionNames? i = some (folder.options.map (·.1))

/-- Whether a plan's tree has the options of every folder in the order of their names. -/
def OptionsByName (plan : Plan) (tree : Json) : Prop :=
  ∀ i folder, plan.directives[i]? = some (.syncedFolder folder) →
    ∃ names, tree.optionNames? i = some names ∧ names.Perm (folder.options.map (·.1)) ∧
      names.Pairwise (· < ·)

/-- The directives of a plan give well-formed trees. -/
theorem wellFormed_directives {ds : List Directive} (h : ∀ d ∈ ds, d.TextKeyed) :
    ∃ trees, ds.mapM Directive.toJson = .ok trees ∧ ∀ tree ∈ trees, tree.WellFormed := by
  induction ds with
  | nil => exact ⟨[], rfl, nofun⟩
  | cons d ds ih =>
    obtain ⟨hd, hds⟩ := List.forall_mem_cons.mp h
    obtain ⟨tree, htree, hformed⟩ := Directive.wellFormed_toJson hd
    obtain ⟨trees, htrees, hformeds⟩ := ih hds
    refine ⟨tree :: trees, ?_, List.forall_mem_cons.mpr ⟨hformed, hformeds⟩⟩
    rw [List.mapM_cons, htree, htrees]
    rfl

/-- A plan keyed by texts has a tree, with the options of every folder in order. -/
theorem wellFormed_toJson {plan : Plan} (h : plan.TextKeyed) :
    ∃ tree, plan.toJson = .ok tree ∧ tree.WellFormed ∧ plan.OptionsInOrder tree := by
  obtain ⟨trees, htrees, hformed⟩ := wellFormed_directives h
  refine ⟨.object [("context", .object [("default_provider", .text plan.defaultProvider)]),
    ("directives", .list trees)], ?_, ?_, ?_⟩
  · rw [toJson, htrees]
    rfl
  · have hcontext : (Json.object [("default_provider", .text plan.defaultProvider)]).WellFormed :=
      .object (List.pairwise_singleton _ _) (by simpa using .text plan.defaultProvider)
    exact .object (by simp) (by simpa using ⟨hcontext, .list hformed⟩)
  · intro i folder hfolder
    -- a directive and its tree stand in the same place
    have hpairs := Attempt.mapM_eq_ok_iff.mp htrees
    obtain ⟨hi, hget⟩ := List.getElem?_eq_some_iff.mp hfolder
    have hlength : i < trees.length := hpairs.length_eq ▸ hi
    have htree := hpairs.get hi hlength
    rw [List.get_eq_getElem, List.get_eq_getElem, hget] at htree
    have hkeyed := h _ (List.mem_of_getElem hget) folder rfl
    show (trees[i]?.bind fun directive => (directive.child? "options").bind Json.names?) = _
    rw [List.getElem?_eq_getElem hlength]
    exact Directive.names?_options hkeyed htree

/-- Where the members of a plan's tree are sorted, the options of a folder are. -/
theorem OptionsInOrder.sorted {plan : Plan} {tree : Json} (h : plan.OptionsInOrder tree)
    (hformed : tree.WellFormed) : plan.OptionsByName tree.sorted := by
  intro i folder hfolder
  obtain ⟨directives, hdirectives, hrest⟩ := Option.bind_eq_some_iff.mp (h i folder hfolder)
  obtain ⟨directive, hdirective, hrest⟩ := Option.bind_eq_some_iff.mp hrest
  obtain ⟨options, hoptions, hnames⟩ := Option.bind_eq_some_iff.mp hrest
  obtain ⟨hformed, hdirectives⟩ := hformed.child?_sorted hdirectives
  obtain ⟨hformed, hdirective⟩ := hformed.item?_sorted hdirective
  obtain ⟨hformed, hoptions⟩ := hformed.child?_sorted hoptions
  obtain ⟨names, hsorted, hperm, hpairwise⟩ := hformed.names?_sorted hnames
  refine ⟨names, ?_, hperm, hpairwise⟩
  unfold Json.optionNames?
  rw [hdirectives, Option.bind_eq_bind, Option.bind_some, hdirective, Option.bind_some, hoptions]
  exact hsorted

/-- Options that stand in the order of their names stand in that of the directives only where these
have it too. -/
theorem OptionsByName.inOrder_iff {plan : Plan} {tree : Json} (h : plan.OptionsByName tree) :
    plan.OptionsInOrder tree ↔ ∀ folder, Directive.syncedFolder folder ∈ plan.directives →
      (folder.options.map (·.1)).Pairwise (· < ·) := by
  constructor
  · intro horder folder hmem
    obtain ⟨i, hfolder⟩ := List.mem_iff_getElem?.mp hmem
    obtain ⟨names, hnames, -, hpairwise⟩ := h i folder hfolder
    rw [horder i folder hfolder, Option.some.injEq] at hnames
    rw [hnames]
    exact hpairwise
  · intro hascending i folder hfolder
    obtain ⟨names, hnames, hperm, hpairwise⟩ := h i folder hfolder
    have hascending := hascending folder (List.mem_of_getElem? hfolder)
    -- two ascending lists of the same names are one list
    have hsame : names = folder.options.map (·.1) :=
      hperm.eq_of_pairwise (fun _ _ _ _ hab hba => absurd hab (String.lt_asymm hba)) hpairwise
        hascending
    rw [hnames, hsame]

end Plan

/-- The root of the YAML document that a plan is printed as, if it can be. -/
def Plan.node? (plan : Plan) : Option Yaml.Node :=
  plan.toJson.toOption.bind fun tree => Yaml.Node.ofValue? none tree.sorted.toValue

namespace Command

/-- The two texts of a plan denote the same tree but for the order of members. The JSON text is read
back as that tree, and has the options of a folder in the order of the directive; the YAML text has
them in the order of their names, so it agrees with the directive only where that is the order of the
directive. -/
theorem planText_formats (colours : Bool) (path : HostPath) (plan : Plan) (h : plan.TextKeyed) :
    ∃ tree root, plan.toJson = .ok tree ∧ plan.node? = some root ∧
      planText colours path plan .json = some (tree.pretty ++ "\n") ∧
      planText colours path plan .yaml = some root.toText ∧
      (∃ source, Json.Document.ofText (tree.pretty ++ "\n") = ⟨source, false⟩ ∧
        tree.SpelledAs source) ∧
      (root.asWritten false).tree? = some tree.sorted ∧
      (root.Reproduced →
        (Yaml.Document.ofText root.toText).root.bind Yaml.Node.tree? = some tree.sorted) ∧
      Json.Same tree.sorted tree ∧
      plan.OptionsInOrder tree ∧ plan.OptionsByName tree.sorted ∧
      (plan.OptionsInOrder tree.sorted ↔ ∀ folder, .syncedFolder folder ∈ plan.directives →
        (folder.options.map (·.1)).Pairwise (· < ·)) := by
  obtain ⟨tree, htree, hformed, horder⟩ := Plan.wellFormed_toJson h
  obtain ⟨root, hroot, hwritten⟩ := Yaml.Node.writes_tree hformed.sorted
  have hsorted := horder.sorted hformed
  have hnode : plan.node? = some root := by
    rw [Plan.node?, htree]
    exact hroot
  have hyaml : planText colours path plan .yaml = some root.toText := by
    show (plan.toJson.toOption.bind fun tree => (Yaml.textOfValue tree.sorted.toValue).toOption) = _
    rw [htree]
    show (Yaml.textOfValue tree.sorted.toValue).toOption = _
    rw [Yaml.textOfValue, hroot]
    rfl
  have hjson : planText colours path plan .json = some (tree.pretty ++ "\n") := by
    show (plan.toJson.toOption.bind fun tree => some (tree.pretty ++ "\n")) = _
    rw [htree]
    rfl
  refine ⟨tree, root, htree, hnode, hjson, hyaml, Json.Document.ofText_pretty hformed,
    hwritten false, fun hreproduced => ?_, hformed.same_sorted, horder, hsorted,
    hsorted.inOrder_iff⟩
  rw [hreproduced.root_eq]
  exact hwritten false

/-- A plan with a folder whose options are declared against the order of their names. -/
def zetaFirst : Plan :=
  ⟨"virtualbox", [.syncedFolder ⟨"code", "/code", none, [("zeta", .int 1), ("alpha", .int 2)]⟩]⟩

/-- The JSON text of `zetaFirst`. -/
def zetaFirstJson : String :=
  "\x7b
  \"context\": \x7b
    \"default_provider\": \"virtualbox\"
  \x7d,
  \"directives\": [
    \x7b
      \"kind\": \"synced_folder\",
      \"map\": \"code\",
      \"to\": \"/code\",
      \"type\": null,
      \"options\": \x7b
        \"zeta\": 1,
        \"alpha\": 2
      \x7d
    \x7d
  ]
\x7d
"

/-- The YAML text of `zetaFirst`. -/
def zetaFirstYaml : String :=
  "context:
  default_provider: virtualbox
directives:
- kind: synced_folder
  map: code
  options:
    alpha: 2
    zeta: 1
  to: /code
  type: null
"

/-- The JSON text of `zetaFirst` has the options as they are declared, the YAML text has not. -/
theorem planText_zetaFirst :
    planText false "Homestead.yaml" zetaFirst .json = some zetaFirstJson ∧
    planText false "Homestead.yaml" zetaFirst .yaml = some zetaFirstYaml ∧
    ∃ tree, (Yaml.Document.ofText zetaFirstYaml).root.bind Yaml.Node.tree? = some tree ∧
      tree.optionNames? 0 = some ["alpha", "zeta"] ∧ ¬ zetaFirst.OptionsInOrder tree := by
  have hnames : ((Yaml.Document.ofText zetaFirstYaml).root.bind Yaml.Node.tree?).bind
      (Json.optionNames? 0) = some ["alpha", "zeta"] := by
    decide +kernel
  obtain ⟨tree, htree, hnames⟩ := Option.bind_eq_some_iff.mp hnames
  refine ⟨by decide +kernel, by decide +kernel, tree, htree, hnames, fun horder => ?_⟩
  have hdeclared : tree.optionNames? 0 = some ["zeta", "alpha"] := horder 0 _ rfl
  rw [hnames] at hdeclared
  exact absurd hdeclared (by decide)

theorem textKeyed_zetaFirst : zetaFirst.TextKeyed := by
  intro d hd
  rw [zetaFirst, List.mem_singleton] at hd
  rintro folder rfl
  cases hd
  have hone : IsInt64 1 := ⟨by decide, by decide⟩
  have htwo : IsInt64 2 := ⟨by decide, by decide⟩
  exact ⟨by decide, by simpa using ⟨.int hone, .int htwo⟩⟩

/-- The YAML text of `zetaFirst` is scanned as the tree that was printed, and has the options by
name. -/
theorem planText_formats_zetaFirst : zetaFirst.TextKeyed ∧ ∃ tree root,
    planText false "Homestead.yaml" zetaFirst .yaml = some (Yaml.Node.toText root) ∧
    root.Reproduced ∧ (Yaml.Document.ofText root.toText).root.bind Yaml.Node.tree? = some tree ∧
    zetaFirst.OptionsByName tree := by
  obtain ⟨tree, root, -, hnode, -, hyaml, -, -, hscanned, -, -, hbyName, -⟩ :=
    planText_formats false "Homestead.yaml" zetaFirst textKeyed_zetaFirst
  have hroot : zetaFirst.node?.any Yaml.Node.isReproduced = true := by
    decide +kernel
  rw [hnode, Option.any_some] at hroot
  have hreproduced := Yaml.Node.reproduced_of_isReproduced hroot
  exact ⟨textKeyed_zetaFirst, tree.sorted, root, hyaml, hreproduced, hscanned hreproduced, hbyName⟩

end Command

end Provision
