import Provision.Command.Template
import Provision.Proofs.Settings.Document
import Provision.Proofs.Settings.Effect
import Provision.Proofs.Yaml.Block
import Provision.Proofs.Yaml.LineTokens

/-!
# Settings of a new file

A new settings file is a simple document around the lines of the machine's name and address. Where
these stand for themselves as YAML, the file is read back as the settings that its template means, with
this name and address. The one exception is a name that spells null, which is read as no name.
-/

namespace Provision.Template

open Yaml

/-! ## The lines of a template -/

/-- The lines in front of the machine's name. -/
def leading : Template → List String
  | .minimal => []
  | .standard => (standardLines "" "").take 2
  | .full => (fullLines "" "").take 3

/-- The lines behind the machine's address. -/
def trailing : Template → List String
  | .minimal => []
  | .standard => (standardLines "" "").drop 4
  | .full => (fullLines "" "").drop 5

def lineOf (s : String) : Line :=
  .ofChars s.toList

/-- An entry of the outermost mapping with a scalar as its value. -/
def fieldLine (key : String) (value : Inline) : Line :=
  .entry 0 false key.toList (some value)

def identityLines (name ip : String) : List Line :=
  [fieldLine "name" (.plain name.toList), fieldLine "ip" (.quoted ip.toList)]

def lines (template : Template) (name ip : String) : List Line :=
  template.leading.map lineOf ++ identityLines name ip ++ template.trailing.map lineOf

/-- What the lines behind the address say of the machine itself. -/
def fields : Template → List (String × Inline)
  | .minimal => []
  | .standard => [
    ("memory", .plain "2048".toList),
    ("cpus", .plain "2".toList),
    ("provider", .plain "virtualbox".toList),
    ("authorize", .plain "~/.ssh/id_rsa.pub".toList)]
  | .full => [
    ("box", .plain "ubuntu/bionic64".toList),
    ("version", .quoted ">= 2.0.0".toList),
    ("memory", .plain "4096".toList),
    ("cpus", .plain "2".toList),
    ("provider", .plain "virtualbox".toList),
    ("natdnshostresolver", .plain "on".toList),
    ("gui", .plain "false".toList),
    ("authorize", .plain "~/.ssh/id_rsa.pub".toList)]

/-- The lines of the keys, folders and sites. -/
def listLines : Template → List Line
  | .minimal => []
  | .standard | .full => [
    .entry 0 false "keys".toList none,
    .item 2 "~/.ssh/id_rsa".toList,
    .entry 0 false "folders".toList none,
    .entry 2 true "map".toList (some (.plain "~/code".toList)),
    .entry 4 false "to".toList (some (.plain "/home/vagrant/code".toList)),
    .entry 0 false "sites".toList none,
    .entry 2 true "map".toList (some (.plain "homestead.test".toList)),
    .entry 4 false "to".toList (some (.plain "/home/vagrant/code/public".toList))]

def contentLines (template : Template) (name ip : String) : List Line :=
  identityLines name ip ++ template.fields.map (fun (key, value) => fieldLine key value) ++
    template.listLines

/-- Whether the characters of some texts have a property. -/
def Spelt (texts : List String) (P : List (List Char) → Prop) : Prop :=
  ∃ charss : List (List Char), texts = charss.map String.ofList ∧ P charss

theorem spelt_nil {P : List (List Char) → Prop} (h : P []) : Spelt [] P :=
  ⟨[], rfl, h⟩

/-- The first of some texts can be taken by its characters. -/
theorem spelt_cons {chars : List Char} {texts : List String} {P : List (List Char) → Prop}
    (h : Spelt texts fun charss => P (chars :: charss)) : Spelt (String.ofList chars :: texts) P := by
  obtain ⟨charss, rfl, hP⟩ := h
  exact ⟨chars :: charss, rfl, hP⟩

/-- Whether texts are those of simple lines, with these among them that hold a token. -/
def Writes (texts : List String) (content : List Line) : Prop :=
  Spelt texts fun charss => charss.all Line.isWritten = true ∧
    Line.content (charss.map Line.ofChars) = content

-- A literal is taken apart into its characters only once, since that takes long.
/-- The lines before the name and the address are comments or empty. -/
theorem writes_leading (template : Template) : Writes template.leading [] := by
  cases template
  all_goals
    simp only [Writes, leading, standardLines, fullLines, List.cons_append, List.take_succ_cons,
      List.take_zero]
    repeat refine spelt_cons ?_
    exact spelt_nil (by decide)

/-- The lines behind them are the fields of the template and then its lists. -/
theorem writes_trailing (template : Template) :
    Writes template.trailing
      (template.fields.map (fun (key, value) => fieldLine key value) ++ template.listLines) := by
  cases template
  all_goals
    simp only [Writes, trailing, standardLines, fullLines, identity, List.cons_append,
      List.nil_append, List.drop_succ_cons, List.drop_zero]
    repeat refine spelt_cons ?_
    exact spelt_nil (by decide)

section

variable {texts : List String} {content : List Line}

/-- Lines that write some content have that content. -/
theorem Writes.content_eq (h : Writes texts content) : Line.content (texts.map lineOf) = content := by
  obtain ⟨charss, rfl, -, hcontent⟩ := h
  have hlines : lineOf ∘ String.ofList = Line.ofChars :=
    funext fun chars => congrArg Line.ofChars String.toList_ofList
  rw [List.map_map, hlines, hcontent]

/-- Each of these lines is simple and has characters that every document may have. -/
theorem Writes.lineOf_spec (h : Writes texts content) {s : String} (hs : s ∈ texts) :
    (lineOf s).chars = s.toList ∧ (lineOf s).isSimple = true ∧ s.toList.all isAllowed = true := by
  obtain ⟨charss, rfl, hwritten, -⟩ := h
  obtain ⟨chars, hchars, rfl⟩ := List.mem_map.mp hs
  have hwritten := List.all_eq_true.mp hwritten chars hchars
  rw [Line.isWritten, Bool.and_eq_true, Bool.and_eq_true, beq_iff_eq] at hwritten
  rw [lineOf, String.toList_ofList]
  exact ⟨hwritten.1.1, hwritten.1.2, hwritten.2⟩

/-- Each of these lines is written as it is. -/
theorem Writes.chars_eq (h : Writes texts content) :
    (texts.map lineOf).map Line.chars = texts.map String.toList := by
  rw [List.map_map]
  exact List.map_congr_left fun s hs => (h.lineOf_spec hs).1

end

/-- A template has the lines of its content, in order. -/
theorem content_lines (template : Template) (name ip : String) :
    Line.content (template.lines name ip) = template.contentLines name ip := by
  have hidentity : Line.content (identityLines name ip) = identityLines name ip := rfl
  rw [lines, Line.content, List.filter_append, List.filter_append]
  show Line.content (template.leading.map lineOf) ++ Line.content (identityLines name ip) ++
    Line.content (template.trailing.map lineOf) = _
  rw [template.writes_leading.content_eq, template.writes_trailing.content_eq, hidentity,
    List.nil_append, contentLines, List.append_assoc]

/-! ## The text -/

/-- A rendered template is its lines, each with a line break. -/
theorem render_eq (template : Template) (name ip : String) :
    template.render name ip = String.join
      ((template.leading ++ identity name ip ++ template.trailing).map (· ++ "\n")) := by
  cases template <;> rfl

theorem chars_identityLines (name ip : String) :
    (identityLines name ip).map Line.chars = (identity name ip).map String.toList := by
  simp [identityLines, identity, fieldLine, Line.chars, Line.indentation, Line.body, Line.valueChars,
    Inline.chars]

/-- The lines of a template are written as they are. -/
theorem chars_lines (template : Template) (name ip : String) :
    (template.lines name ip).map Line.chars =
      (template.leading ++ identity name ip ++ template.trailing).map String.toList := by
  rw [lines, List.map_append, List.map_append, List.map_append, List.map_append,
    template.writes_leading.chars_eq, template.writes_trailing.chars_eq, chars_identityLines]

/-- A rendered template is the text of its lines. -/
theorem toList_render (template : Template) (name ip : String) :
    (template.render name ip).toList = Line.text (template.lines name ip) := by
  have hchars := congrArg (List.flatMap (· ++ ['\n'])) (template.chars_lines name ip)
  rw [List.flatMap_map, List.flatMap_map] at hchars
  have hline : (fun s : String => (s ++ "\n").toList) = fun s => s.toList ++ ['\n'] :=
    funext fun s => String.toList_append
  rw [render_eq, String.toList_join, List.flatMap_map, hline, Line.text_eq_flatMap, hchars]

/-- With a name and an address that stand for themselves every line is simple. -/
theorem isSimple_lines (template : Template) {name ip : String} (hname : isPlainText name.toList = true)
    (hip : isQuotable ip.toList = true) :
    ∀ line ∈ template.lines name ip, line.isSimple = true := by
  intro line hline
  rw [lines, List.mem_append, List.mem_append, List.mem_map, List.mem_map] at hline
  rcases hline with (⟨s, hs, rfl⟩ | hline) | ⟨s, hs, rfl⟩
  · exact (template.writes_leading.lineOf_spec hs).2.1
  · have hkeys : isSimpleName "name".toList = true ∧ isSimpleName "ip".toList = true := by decide
    rw [identityLines, List.mem_cons, List.mem_singleton] at hline
    rcases hline with rfl | rfl
    · exact Bool.and_eq_true_iff.mpr ⟨hkeys.1, hname⟩
    · exact Bool.and_eq_true_iff.mpr ⟨hkeys.2, hip⟩
  · exact (template.writes_trailing.lineOf_spec hs).2.1

/-- With such characters in the name and the address the text has no others. -/
theorem isAllowed_render (template : Template) {name ip : String}
    (hname : name.toList.all isAllowed = true) (hip : ip.toList.all isAllowed = true) :
    (template.render name ip).toList.all isAllowed = true := by
  have hlines : ∀ s ∈ template.leading ++ identity name ip ++ template.trailing,
      s.toList.all isAllowed = true := by
    intro s hs
    rw [List.mem_append, List.mem_append] at hs
    -- the two lines in the middle hold the name and the address
    rcases hs with (hs | hs) | hs
    · exact (template.writes_leading.lineOf_spec hs).2.2
    · rw [identity, List.mem_cons, List.mem_singleton] at hs
      rcases hs with rfl | rfl
      · rw [String.toList_append, List.all_append, hname, Bool.and_true]
        decide
      · rw [String.toList_append, String.toList_append, List.all_append, List.all_append, hip]
        decide
    · exact (template.writes_trailing.lineOf_spec hs).2.2
  rw [render_eq, String.toList_join, List.flatMap_map, List.all_flatMap, List.all_eq_true]
  intro s hs
  rw [String.toList_append, List.all_append, hlines s hs]
  decide

/-- The lines of every template are laid out as blocks. -/
theorem isLaidOut_lines (template : Template) (name ip : String) :
    Line.isLaidOut (template.lines name ip) = true := by
  rw [← Line.isLaidOut_content, content_lines]
  cases template <;> rfl

/-! ## The tree -/

def plain (text : String) : Block :=
  .scalar .plain text.toList

def valueBlock : Inline → Block
  | .plain text => .scalar .plain text
  | .quoted text => .scalar .doubleQuoted text

def listEntries : Template → List (List Char × Block)
  | .minimal => []
  | .standard | .full => [
    ("keys".toList, .sequence [plain "~/.ssh/id_rsa"]),
    ("folders".toList, .sequence [.mapping [
      ("map".toList, plain "~/code"),
      ("to".toList, plain "/home/vagrant/code")]]),
    ("sites".toList, .sequence [.mapping [
      ("map".toList, plain "homestead.test"),
      ("to".toList, plain "/home/vagrant/code/public")]])]

/-- What a template says. -/
def block (template : Template) (name ip : String) : Block :=
  .mapping ([("name".toList, plain name), ("ip".toList, .scalar .doubleQuoted ip.toList)] ++
    template.fields.map (fun (key, value) => (key.toList, valueBlock value)) ++ template.listEntries)

/-- The lines of a template have the tokens of its block. -/
theorem tokens_block (template : Template) (name ip : String) :
    Line.allTokens .outside (template.contentLines name ip) =
      (template.block name ip).tokens ++ [.streamEnd] := by
  cases template <;>
    simp [contentLines, identityLines, fieldLine, fields, listLines, block, valueBlock, listEntries,
      plain, Line.allTokens, Line.tokens, Line.valueTokens, Inline.token, Block.tokens,
      Block.entryTokens, Block.itemTokens, Indents.enter, Indents.close, Indents.closeFrom,
      Indents.begin, Indents.outside]

/-! ## The settings -/

/-- The settings that a template means. -/
def settings (template : Template) (name ip : Option String) : Settings :=
  match template with
  | .minimal => { Settings.blank with name, ip }
  | .standard => { shared with name, ip, memory := some "2048", cpus := some "2" }
  | .full =>
    { shared with
      name
      ip
      box := some "ubuntu/bionic64"
      version := some ">= 2.0.0"
      memory := some "4096"
      cpus := some "2"
      natdnshostresolver := some "on"
      gui := some false }
where
  shared : Settings :=
    { Settings.blank with
      provider := some "virtualbox"
      authorize := some "~/.ssh/id_rsa.pub"
      keys := some ["~/.ssh/id_rsa"]
      folders := [⟨"~/code", "/home/vagrant/code", none, [], none⟩]
      sites := [⟨"homestead.test", some "/home/vagrant/code/public", none, none, none, none, none⟩] }

open Reading

/-- The name that a plain scalar is read as. -/
def nameOf (text : String) : Option String :=
  if isNull text then none else some text

/-- A name is read as the name it is, or as none where it spells null. -/
theorem yields_name {name : String} (hname : name ≠ "") (place : Place) :
    Yields (Codec.text.optional.ofNode place (.scalar none ⟨name, none, .plain⟩)) (nameOf name) := by
  have hoptional : ∀ document count,
      Codec.text.optional.ofNode place (.scalar none ⟨name, none, .plain⟩) document count =
        (if name = "" || isNull name then pure none
          else some <$> Codec.text.ofNode place (.scalar none ⟨name, none, .plain⟩))
          document count := fun _ _ => rfl
  intro document count
  rw [hoptional, decide_eq_false hname, Bool.false_or, nameOf]
  split <;> rfl

/-- No field is missing in settings. -/
theorem yields_settings {entries : List (Node × Node)} {p : Record.Progress Settings}
    (h : Yields (Settings.schema.ofEntries 127 .root entries ⟨.blank, []⟩) p) :
    Yields (Settings.schema.codec.ofNode .root (.mapping none none entries)) p.record :=
  ((yields_resolve (by simp)).bind (h.bind (yields_pure p.record))).located .root

/-- The name is set before the other fields are read. -/
theorem yields_nameEntry {name : String} (hname : name ≠ "") {rest : List (Node × Node)}
    {p : Record.Progress Settings}
    (h : Yields (Settings.schema.ofEntries 127 .root rest
      ⟨{ Settings.blank with name := nameOf name }, ["name"]⟩) p) :
    Yields (Settings.schema.ofEntries 127 .root
      ((.scalar none ⟨"name", none, .plain⟩, .scalar none ⟨name, none, .plain⟩) :: rest)
      ⟨.blank, []⟩) p := by
  have hentries : Settings.schema.ofEntries 127 .root
      ((.scalar none ⟨"name", none, .plain⟩, .scalar none ⟨name, none, .plain⟩) :: rest)
        ⟨.blank, []⟩ =
      Codec.text.optional.ofNode ⟨127, .field .root "name"⟩ (.scalar none ⟨name, none, .plain⟩) >>=
        fun name => Settings.schema.ofEntries 127 .root rest
          ⟨{ Settings.blank with name }, ["name"]⟩ := rfl
  rw [hentries]
  exact (yields_name hname _).bind h

/-- What stands behind the name fills in the other fields. -/
theorem exists_yields_entries (template : Template) (name : Option String) (ip : String) : ∃ seen,
    Yields (Settings.schema.ofEntries 127 .root
      ((.scalar none ⟨"ip", none, .plain⟩, .scalar none ⟨ip, none, .doubleQuoted⟩) ::
        Block.entryNodes (template.fields.map (fun (key, value) => (key.toList, valueBlock value)) ++
          template.listEntries)) ⟨{ Settings.blank with name }, ["name"]⟩)
      ⟨template.settings name (some ip), seen⟩ := by
  cases template <;>
    simp only [fields, listEntries, valueBlock, plain, List.map_cons, List.map_nil, List.cons_append,
      List.nil_append, Block.entryNodes, Block.itemNodes, Block.node, String.ofList_toList] <;>
    exact ⟨_, fun _ _ => rfl⟩

/-- The nodes of a template are read as its settings. -/
theorem yields_root (template : Template) {name : String} (hname : name ≠ "") (ip : String) :
    Yields (Settings.schema.codec.ofNode .root (template.block name ip).node)
      (template.settings (nameOf name) (some ip)) := by
  obtain ⟨seen, hentries⟩ := template.exists_yields_entries (nameOf name) ip
  have hblock : (template.block name ip).node = .mapping none none
      ((.scalar none ⟨"name", none, .plain⟩, .scalar none ⟨name, none, .plain⟩) ::
        (.scalar none ⟨"ip", none, .plain⟩, .scalar none ⟨ip, none, .doubleQuoted⟩) ::
        Block.entryNodes (template.fields.map (fun (key, value) => (key.toList, valueBlock value)) ++
          template.listEntries)) := by
    simp [block, Block.node, Block.entryNodes, plain]
  rw [hblock]
  exact yields_settings (yields_nameEntry hname hentries)

/-! ## Reading a new file back -/

/-- Whether a text stands for itself as a plain scalar on the rest of a line. -/
def standsPlain (s : String) : Bool :=
  s.toList.all isAllowed && isPlainText s.toList

/-- Whether a text stands for itself between double quotes. -/
def standsQuoted (s : String) : Bool :=
  s.toList.all isAllowed && isQuotable s.toList

theorem spells_render (template : Template) {name ip : String} (hname : standsPlain name = true)
    (hip : standsQuoted ip = true) :
    (Document.ofText (template.render name ip)).Spells (template.block name ip).node := by
  rw [standsPlain, Bool.and_eq_true] at hname
  rw [standsQuoted, Bool.and_eq_true] at hip
  have hallowed := template.isAllowed_render hname.1 hip.1
  have htokens : Yaml.tokens (template.render name ip).toList =
      ((template.block name ip).tokens ++ [.streamEnd], none) := by
    rw [toList_render] at hallowed ⊢
    rw [tokens_text (template.isSimple_lines hname.2 hip.2) (template.isLaidOut_lines name ip) hallowed,
      ← Line.allTokens_content, content_lines, tokens_block]
  obtain ⟨anchors, size, hdocument⟩ := Document.ofText_of_tokens htokens
  rw [hdocument]
  exact ⟨rfl, rfl, rfl⟩

/-- A new settings file says what was asked where the name and the address stand for themselves, but
a name that spells null is read as none. -/
theorem ofYaml_render (template : Template) {name ip : String} (hname : standsPlain name = true)
    (hip : standsQuoted ip = true) :
    Settings.ofYaml (template.render name ip) =
      .ok (template.settings (if isNull name then none else some name) (some ip)) := by
  have hempty : name ≠ "" := by
    rintro rfl
    exact absurd hname (by decide)
  exact Settings.ofYaml_of_yields (template.spells_render hname hip) (template.yields_root hempty ip)

/-- Signs of YAML within a word are no signs, and between quotes not even behind a blank. -/
theorem ofYaml_render_signs :
    standsPlain "my box#2:a" = true ∧ standsQuoted "2001:db8::1 # main" = true ∧
      Settings.ofYaml (full.render "my box#2:a" "2001:db8::1 # main") =
        .ok (full.settings (some "my box#2:a") (some "2001:db8::1 # main")) :=
  ⟨by decide, by decide, ofYaml_render full (by decide) (by decide)⟩

/-- The name `null` is not read back. -/
theorem ofYaml_render_null : ¬ ∃ s, Settings.ofYaml (minimal.render "null" "192.168.56.56") = .ok s ∧
    s.name = some "null" ∧ s.ip = some "192.168.56.56" := by
  have hname : (Settings.ofYaml (minimal.render "null" "192.168.56.56")).toOption.map
      Settings.name = some none := by
    decide +kernel
  rintro ⟨s, hs, hnull, -⟩
  rw [hs] at hname
  rw [show (Except.ok s : Except Error Settings).toOption.map Settings.name = some s.name from rfl,
    hnull] at hname
  cases hname

end Provision.Template
