import Provision.Plan.Json
import Provision.Proofs.Attempt

/-!
# Plans read back from JSON

The JSON form of a directive tells all there is to the directive. `Directive.ofJson?` reads an object
by the names of its members, the kind first; it takes back every directive whose options JSON has a
value for (`Value.Lossless`). Hence two lists of such directives with the same trees are the same.
-/

namespace Provision

/-! ## Reading trees -/

namespace Json

def text? : Json → Option String
  | .text s => some s
  | _ => none

def flag? : Json → Option Bool
  | .bool b => some b
  | _ => none

/-- A text that may be null. -/
def nullableText? : Json → Option (Option String)
  | .null => some none
  | .text s => some (some s)
  | _ => none

/-- A port that may be null. -/
def nullablePort? : Json → Option (Option UInt16)
  | .null => some none
  | .int n => if 0 ≤ n ∧ n < Nat.pow 2 16 then some (some (UInt16.ofNat n.toNat)) else none
  | _ => none

def texts? : Json → Option (List String)
  | .list items => items.mapM text?
  | _ => none

/-- Two texts in a list. -/
def textPair? : Json → Option (String × String)
  | .list [.text first, .text second] => some (first, second)
  | _ => none

def textPairs? : Json → Option (List (String × String))
  | .list items => items.mapM textPair?
  | _ => none

/-- The text of a member that may be left out. -/
def optionalText? (name : String) (members : List (String × Json)) : Option (Option String) :=
  match members.lookup name with
  | none => some none
  | some tree => tree.text?.map some

end Json

/-- The options an object stands for. -/
def Options.ofJson? : Json → Option Options
  | .object members => some (members.map fun (name, tree) => (name, tree.toValue))
  | _ => none

def ScriptSource.ofJson? : Json → Option ScriptSource
  | .object [("path", .text file)] => some (.path file)
  | .object [("inline", .text body)] => some (.inline body)
  | _ => none

namespace Directive

/-- The directive of a kind with these members. -/
def ofMembers? (kind : String) (members : List (String × Json)) : Option Directive :=
  match kind with
  | "ssh" => do
    let shell ← (← members.lookup "shell").text?
    let forwardAgent ← (← members.lookup "forward_agent").flag?
    return .ssh { shell, forwardAgent }
  | "machine" => do
    let name ← (← members.lookup "name").text?
    let box ← (← members.lookup "box").text?
    let version ← (← members.lookup "version").text?
    return .machine { name, box, version }
  | "provider" => do
    let provider ← (← members.lookup "provider").text?
    let name ← (← members.lookup "name").text?
    let customizations ← (← members.lookup "customizations").textPairs?
    let gui ← (← members.lookup "gui").flag?
    return .provider { provider, name, customizations, gui }
  | "network" => do
    let kind ← Json.optionalText? "type" members
    let ip ← Json.optionalText? "ip" members
    let bridge ← Json.optionalText? "bridge" members
    return .network { kind, ip, bridge }
  | "forwarded_port" => do
    let guest ← (← members.lookup "guest").nullablePort?
    let host ← (← members.lookup "host").nullablePort?
    let protocol ← (← members.lookup "protocol").text?
    let autoCorrect ← (← members.lookup "auto_correct").flag?
    return .forwardedPort { guest, host, protocol, autoCorrect }
  | "shell" => do
    let name ← Json.optionalText? "name" members
    let source ← ScriptSource.ofJson? (← members.lookup "source")
    let args ← ((members.lookup "args").getD (.list [])).texts?
    let privileged ← (← members.lookup "privileged").flag?
    return .shell { name, source, args, privileged }
  | "file" => do
    let source ← (← members.lookup "source").text?
    let destination ← (← members.lookup "destination").text?
    return .file { source, destination }
  | "synced_folder" => do
    let map ← (← members.lookup "map").text?
    let guestPath ← (← members.lookup "to").text?
    let kind ← (← members.lookup "type").nullableText?
    let options ← Options.ofJson? (← members.lookup "options")
    return .syncedFolder { map, guestPath, kind, options }
  | "bind_folder" => do
    let source ← (← members.lookup "source").text?
    let target ← (← members.lookup "target").text?
    return .bindFolder { source, target }
  | _ => none

/-- The directive an object stands for. -/
def ofJson? : Json → Option Directive
  | .object members => do ofMembers? (← (← members.lookup "kind").text?) members
  | _ => none

end Directive

/-! ## Values with a tree of their own -/

/-- The values that JSON has a tree for: numbers are finite, tables are keyed by texts, and there are
no tags. -/
inductive Value.Lossless : Value → Prop
  | null : Lossless .null
  | bool (b : Bool) : Lossless (.bool b)
  | int (n : Int) : Lossless (.int n)
  | float {x : Double} (h : x.isFinite = true) : Lossless (.float x)
  | text (s : String) : Lossless (.text s)
  | list {items : List Value} (h : ∀ item ∈ items, Lossless item) : Lossless (.list items)
  | table {entries : List (Value × Value)} (hkeys : ∀ entry ∈ entries, ∃ name, entry.1 = .text name)
      (hvalues : ∀ entry ∈ entries, Lossless entry.2) : Lossless (.table entries)

namespace Json

open Attempt

/-- Items that can be given back one by one are given back as a list. -/
theorem ofItems_toValue {items : List Value}
    (h : ∀ item ∈ items, ∃ tree, ofValue item = .ok tree ∧ tree.toValue = item) :
    ∃ trees, ofItems items = .ok trees ∧ itemValues trees = items := by
  induction items with
  | nil => exact ⟨[], rfl, rfl⟩
  | cons item items ih =>
    obtain ⟨⟨tree, htree, hvalue⟩, hrest⟩ := List.forall_mem_cons.mp h
    obtain ⟨trees, htrees, hvalues⟩ := ih hrest
    refine ⟨tree :: trees, ?_, ?_⟩
    · rw [ofItems, htree, htrees]
      rfl
    · rw [itemValues, hvalue, hvalues]

/-- Entries under text keys are given back as the members of an object. -/
theorem ofEntries_toValue {entries : List (Value × Value)}
    (hkeys : ∀ entry ∈ entries, ∃ name, entry.1 = .text name)
    (h : ∀ entry ∈ entries, ∃ tree, ofValue entry.2 = .ok tree ∧ tree.toValue = entry.2) :
    ∃ members, ofEntries entries = .ok members ∧ memberValues members = entries := by
  induction entries with
  | nil => exact ⟨[], rfl, rfl⟩
  | cons entry entries ih =>
    obtain ⟨key, value⟩ := entry
    obtain ⟨⟨name, rfl⟩, hrestKeys⟩ := List.forall_mem_cons.mp hkeys
    obtain ⟨⟨tree, htree, hvalue⟩, hrest⟩ := List.forall_mem_cons.mp h
    obtain ⟨members, hmembers, hvalues⟩ := ih hrestKeys hrest
    refine ⟨(name, tree) :: members, ?_, ?_⟩
    · rw [ofEntries, htree, hmembers]
      rfl
    · rw [memberValues, hvalue, hvalues]

/-- A value with a tree of its own has a tree, and is the value of that tree. -/
theorem toValue_ofValue {value : Value} (h : value.Lossless) :
    ∃ tree, ofValue value = .ok tree ∧ tree.toValue = value := by
  induction h with
  | null => exact ⟨.null, rfl, rfl⟩
  | bool b => exact ⟨.bool b, rfl, rfl⟩
  | int n => exact ⟨.int n, rfl, rfl⟩
  | @float x hfinite => exact ⟨.float x, by rw [ofValue, if_pos hfinite], rfl⟩
  | text s => exact ⟨.text s, rfl, rfl⟩
  | list _ ih =>
    obtain ⟨trees, htrees, hvalues⟩ := ofItems_toValue ih
    refine ⟨.list trees, ?_, ?_⟩
    · rw [ofValue, htrees]
      rfl
    · rw [toValue, hvalues]
  | table hkeys _ ih =>
    obtain ⟨members, hmembers, hvalues⟩ := ofEntries_toValue hkeys ih
    refine ⟨.object members, ?_, ?_⟩
    · rw [ofValue, hmembers]
      rfl
    · rw [toValue, hvalues]

theorem memberValues_eq_map (members : List (String × Json)) :
    memberValues members = members.map fun (name, tree) => (.text name, tree.toValue) := by
  induction members with
  | nil => rfl
  | cons member members ih => rw [memberValues, ih, List.map_cons]

end Json

/-- Options whose values all have trees of their own. -/
def Options.Lossless (options : Options) : Prop :=
  ∀ entry ∈ options, entry.2.Lossless

/-- The options of a folder are read back from their object. -/
theorem Options.ofJson?_toJson {options : Options} (h : options.Lossless) :
    ∃ tree, options.toJson = .ok tree ∧ Options.ofJson? tree = some options := by
  have htable : (Value.table (options.map fun option => (.text option.1, option.2))).Lossless := by
    refine .table (fun entry hentry => ?_) fun entry hentry => ?_
    · obtain ⟨option, -, rfl⟩ := List.mem_map.mp hentry
      exact ⟨option.1, rfl⟩
    · obtain ⟨option, hoption, rfl⟩ := List.mem_map.mp hentry
      exact h option hoption
  obtain ⟨tree, htree, hvalue⟩ := Json.toValue_ofValue htable
  refine ⟨tree, htree, ?_⟩
  -- only objects are read as tables
  cases tree with
  | object members =>
    rw [Json.toValue, Json.memberValues_eq_map, Value.table.injEq] at hvalue
    have hinjective : Function.Injective fun option : String × Value =>
        (Value.text option.1, option.2) := by
      rintro ⟨name, value⟩ ⟨name', value'⟩ heq
      simpa using heq
    have hmembers : members.map (fun member => (Value.text member.1, member.2.toValue)) =
        (members.map fun member => (member.1, member.2.toValue)).map fun option =>
          (Value.text option.1, option.2) := by
      rw [List.map_map]
      rfl
    have hsame := (List.map_injective_iff.mpr hinjective) (hmembers.symm.trans hvalue)
    exact congrArg some hsame
  | _ => cases hvalue

/-! ## Members -/

namespace Json

/-- A text that may be missing is read back, null as none. -/
theorem nullableText?_ofText? (text : Option String) : (ofText? text).nullableText? = some text := by
  rcases text with _ | text <;> rfl

/-- A port that may be missing is read back: it is in the range of ports. -/
theorem nullablePort?_ofPort? (port : Option UInt16) : (ofPort? port).nullablePort? = some port := by
  rcases port with _ | n
  · rfl
  · have hn : (0 : Int) ≤ n.toNat ∧ (n.toNat : Int) < Nat.pow 2 16 := by
      have hlt : n.toNat < Nat.pow 2 16 := n.toNat_lt
      omega
    simp only [ofPort?, Option.map_some, Option.getD_some, nullablePort?]
    rw [if_pos hn, Int.toNat_natCast, UInt16.ofNat_toNat]

theorem texts?_map_text (texts : List String) : (Json.list (texts.map .text)).texts? = some texts := by
  show (texts.map Json.text).mapM text? = some texts
  induction texts with
  | nil => rfl
  | cons first texts ih =>
    rw [List.map_cons, List.mapM_cons, ih]
    rfl

theorem textPairs?_map (pairs : List (String × String)) :
    (Json.list (pairs.map fun (first, second) => .list [.text first, .text second])).textPairs? =
      some pairs := by
  show (pairs.map _).mapM textPair? = some pairs
  induction pairs with
  | nil => rfl
  | cons first pairs ih =>
    rw [List.map_cons, List.mapM_cons, ih]
    rfl

end Json

/-- The member that gives a script tells a path from a text. -/
theorem ScriptSource.ofJson?_toJson (source : ScriptSource) :
    ScriptSource.ofJson? source.toJson = some source := by
  rcases source with file | body <;> rfl

namespace Directive

/-- Whether JSON has a tree of its own for all that a directive holds. -/
def Lossless (d : Directive) : Prop :=
  ∀ folder, d = .syncedFolder folder → folder.options.Lossless

/-- The members of a directive tell what it is. -/
theorem ofMembers?_members {d : Directive} (h : d.Lossless) : ∃ members, d.members = .ok members ∧
    ofMembers? d.kind (("kind", .text d.kind) :: members) = some d := by
  cases d with
  | ssh session => exact ⟨_, rfl, rfl⟩
  | machine machine => exact ⟨_, rfl, rfl⟩
  | provider tuning =>
    refine ⟨_, rfl, ?_⟩
    show (Json.textPairs? (.list (tuning.customizations.map _)) >>= fun customizations =>
      some (provider ⟨tuning.provider, tuning.name, customizations, tuning.gui⟩)) = _
    rw [Json.textPairs?_map]
    rfl
  | network network =>
    refine ⟨_, rfl, ?_⟩
    obtain ⟨kind, ip, bridge⟩ := network
    -- each of the three members may be left out
    rcases kind with _ | kind <;> rcases ip with _ | ip <;> rcases bridge with _ | bridge <;> rfl
  | forwardedPort port =>
    refine ⟨_, rfl, ?_⟩
    show ((Json.ofPort? port.guest).nullablePort? >>= fun guest =>
      (Json.ofPort? port.host).nullablePort? >>= fun host =>
        some (forwardedPort ⟨guest, host, port.protocol, port.autoCorrect⟩)) = _
    rw [Json.nullablePort?_ofPort?, Json.nullablePort?_ofPort?]
    rfl
  | shell shell =>
    refine ⟨_, rfl, ?_⟩
    obtain ⟨name, source, args, privileged⟩ := shell
    have hread : (ScriptSource.ofJson? source.toJson >>= fun source =>
        (Json.list (args.map .text)).texts? >>= fun args =>
          some (Directive.shell ⟨name, source, args, privileged⟩)) =
        some (.shell ⟨name, source, args, privileged⟩) := by
      rw [ScriptSource.ofJson?_toJson, Json.texts?_map_text]
      rfl
    -- a script without a name or without arguments leaves these members out
    rcases name with _ | name <;> rcases args with _ | ⟨first, args⟩ <;> exact hread
  | file upload => exact ⟨_, rfl, rfl⟩
  | syncedFolder folder =>
    obtain ⟨tree, htree, hoptions⟩ := Options.ofJson?_toJson (h folder rfl)
    refine ⟨_, by rw [members, htree]; rfl, ?_⟩
    show ((Json.ofText? folder.kind).nullableText? >>= fun kind =>
      Options.ofJson? tree >>= fun options =>
        some (syncedFolder ⟨folder.map, folder.guestPath, kind, options⟩)) = _
    rw [Json.nullableText?_ofText?, hoptions]
    rfl
  | bindFolder folder => exact ⟨_, rfl, rfl⟩

open Attempt in
/-- Every directive is read back from its object, by its kind. -/
theorem ofJson?_toJson {d : Directive} (h : d.Lossless) :
    ∃ tree, d.toJson = .ok tree ∧ ofJson? tree = some d := by
  obtain ⟨members, hmembers, hread⟩ := ofMembers?_members h
  refine ⟨.object (("kind", .text d.kind) :: members), ?_, hread⟩
  unfold toJson
  rw [hmembers]
  rfl

/-- The directives of a plan are read back one by one, in order. -/
theorem mapM_ofJson?_toJson {ds : List Directive} (h : ∀ d ∈ ds, d.Lossless) :
    ∃ trees, ds.mapM toJson = .ok trees ∧ trees.mapM ofJson? = some ds := by
  induction ds with
  | nil => exact ⟨[], rfl, rfl⟩
  | cons d ds ih =>
    obtain ⟨hd, hds⟩ := List.forall_mem_cons.mp h
    obtain ⟨tree, htree, hread⟩ := ofJson?_toJson hd
    obtain ⟨trees, htrees, hreads⟩ := ih hds
    refine ⟨tree :: trees, ?_, ?_⟩
    · rw [List.mapM_cons, htree, htrees]
      rfl
    · rw [List.mapM_cons, hread, hreads]
      rfl

/-- The trees of directives tell the directives: all that is in them can be read back, and two lists
with the same trees are the same list. -/
theorem toJson_lossless (ds es : List Directive) (hds : ∀ d ∈ ds, d.Lossless)
    (hes : ∀ e ∈ es, e.Lossless) :
    (∃ trees, ds.mapM toJson = .ok trees ∧ trees.mapM ofJson? = some ds) ∧
      (ds.mapM toJson = es.mapM toJson → ds = es) := by
  obtain ⟨trees, htrees, hreads⟩ := mapM_ofJson?_toJson hds
  refine ⟨⟨trees, htrees, hreads⟩, fun hsame => ?_⟩
  obtain ⟨others, hothers, hreadsOthers⟩ := mapM_ofJson?_toJson hes
  rw [htrees, hothers, Except.ok.injEq] at hsame
  rw [hsame, hreadsOthers] at hreads
  exact (Option.some.inj hreads).symm

/-- A network that leaves everything out, a script without a name, and a folder whose options nest. -/
def sparse : List Directive := [
  .network ⟨none, none, none⟩,
  .shell (.inline "true"),
  .syncedFolder ⟨"code", "/code", none, [
    ("owner", .table [(.text "!t", .list [.null, .bool true, .int 1, .float (.finite false .zero)])]),
    ("mount_options", .list [.text "1"])]⟩]

/-- In these directives everything that may be missing is missing. -/
theorem lossless_of_mem_sparse : ∀ d ∈ sparse, d.Lossless := by
  have hlist : (Value.list [.null, .bool true, .int 1, .float (.finite false .zero)]).Lossless := by
    apply Value.Lossless.list
    simp only [List.forall_mem_cons]
    exact ⟨.null, .bool true, .int 1, .float rfl, nofun⟩
  have htable : (Value.table [(.text "!t",
      .list [.null, .bool true, .int 1, .float (.finite false .zero)])]).Lossless := by
    apply Value.Lossless.table
    · simp
    · simpa using hlist
  have hmount : (Value.list [.text "1"]).Lossless := .list (by simpa using .text "1")
  simp only [sparse, List.forall_mem_cons]
  refine ⟨nofun, nofun, ?_, nofun⟩
  rintro folder ⟨⟩
  simpa [Options.Lossless] using ⟨htable, hmount⟩

/-- The trees of `sparse` differ from those of the same directives in another order. -/
theorem toJson_lossless_sparse : (∀ d ∈ sparse, d.Lossless) ∧
    (∃ trees, sparse.mapM toJson = .ok trees ∧ trees.mapM ofJson? = some sparse) ∧
      sparse.mapM toJson ≠ sparse.reverse.mapM toJson := by
  have hreverse : ∀ d ∈ sparse.reverse, d.Lossless :=
    fun d hd => lossless_of_mem_sparse d (List.mem_reverse.mp hd)
  obtain ⟨hread, hinjective⟩ :=
    toJson_lossless sparse sparse.reverse lossless_of_mem_sparse hreverse
  refine ⟨lossless_of_mem_sparse, hread, fun hsame => ?_⟩
  have hlists := hinjective hsame
  simp [sparse] at hlists

end Directive

end Provision
