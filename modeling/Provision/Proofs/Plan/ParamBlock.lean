import Mathlib.Data.List.Infix
import Provision.Plan.Server

/-!
# Parameter blocks

A block of parameters has its keys and values as they are, so a value can look like further entries.
It cannot as long as no key has the text in it that ends keys, and no value the text that begins
entries: both texts are two different characters, so neither comes about where a key or a value
meets what follows it. Such a block is read back by looking for the first place of each
(`readBlock?_eq_some_iff`).
-/

namespace Provision

/-! ## The first place of two characters -/

/-- The text in front of the first place where `a` and `b` follow each other, and the text from
there. -/
def spanPair (a b : Char) : List Char → List Char × List Char
  | [] => ([], [])
  | c :: rest =>
    if [a, b] <+: c :: rest then ([], c :: rest)
    else (c :: (spanPair a b rest).1, (spanPair a b rest).2)

section

variable {a b : Char} {text before after : List Char}

/-- A span ends at once where the pair stands. -/
theorem spanPair_of_prefix (h : [a, b] <+: text) : spanPair a b text = ([], text) := by
  cases text with
  | nil => exact absurd h (by simp)
  | cons c rest => exact if_pos h

/-- Two different characters that follow each other in no text follow each other nowhere before the
place that comes after it. -/
theorem spanPair_append (hab : a ≠ b) (hbefore : ¬[a, b] <:+: before)
    (hafter : after = [] ∨ [a, b] <+: after) :
    spanPair a b (before ++ after) = (before, after) := by
  induction before with
  | nil =>
    rcases hafter with rfl | hafter
    · rfl
    · exact spanPair_of_prefix hafter
  | cons c before ih =>
    rw [List.infix_cons_iff, not_or] at hbefore
    obtain ⟨hhere, hlater⟩ := hbefore
    have hnot : ¬[a, b] <+: c :: (before ++ after) := by
      rw [List.cons_prefix_cons]
      rintro ⟨rfl, hnext⟩
      cases before with
      | nil =>
        -- the second character would be the first one of what comes after
        rcases hafter with rfl | ⟨rest, rfl⟩
        · simp at hnext
        · exact hab (List.cons_prefix_cons.mp hnext).1.symm
      | cons d before =>
        have hd : b = d := (List.cons_prefix_cons.mp hnext).1
        exact hhere (by simp [hd])
    rw [List.cons_append, spanPair, if_neg hnot, ih hlater]

theorem spanPair_append_self (a b : Char) (text : List Char) :
    (spanPair a b text).1 ++ (spanPair a b text).2 = text := by
  induction text with
  | nil => rfl
  | cons c rest ih =>
    unfold spanPair
    split
    · rfl
    · exact congrArg (c :: ·) ih

/-- A span does not hold the pair it ends at. -/
theorem not_infix_spanPair (a b : Char) (text : List Char) :
    ¬[a, b] <:+: (spanPair a b text).1 := by
  induction text with
  | nil => simp [spanPair]
  | cons c rest ih =>
    unfold spanPair
    split
    · simp
    · next hnot =>
      rw [List.infix_cons_iff, not_or]
      refine ⟨fun hhere => hnot ?_, ih⟩
      rw [← spanPair_append_self a b rest]
      exact hhere.trans (List.prefix_append (c :: _) _)

/-- A span ends at the end of the text or before the pair. -/
theorem spanPair_stops (a b : Char) (text : List Char) :
    (spanPair a b text).2 = [] ∨ [a, b] <+: (spanPair a b text).2 := by
  induction text with
  | nil => exact .inl rfl
  | cons c rest ih =>
    unfold spanPair
    split
    · next hhere => exact .inr hhere
    · exact ih

/-- What is left behind a span is no longer than the text. -/
theorem length_spanPair_le (a b : Char) (text : List Char) :
    (spanPair a b text).2.length ≤ text.length := by
  have hlength := congrArg List.length (spanPair_append_self a b text)
  rw [List.length_append] at hlength
  omega

end

/-! ## Reading a block -/

/-- The characters of an entry. -/
def SiteParam.chars (param : SiteParam) : List Char :=
  " [".toList ++ (param.key.toList ++ ("]=".toList ++ param.value.toList))

/-- Whether neither the key of a parameter nor its value has the text in it that ends it. -/
structure SiteParam.IsSeparable (param : SiteParam) : Prop where
  key : ¬"]=".toList <:+: param.key.toList
  value : ¬" [".toList <:+: param.value.toList

instance (param : SiteParam) : Decidable param.IsSeparable :=
  decidable_of_iff (_ ∧ _) ⟨fun h => ⟨h.1, h.2⟩, fun h => ⟨h.key, h.value⟩⟩

/-- The parameters that entries in a row spell. -/
def readEntries? : List Char → Option (List SiteParam)
  | [] => some []
  | ' ' :: '[' :: text =>
    let key := spanPair ']' '=' text
    let value := spanPair ' ' '[' (key.2.drop 2)
    if key.2 = [] then none
    else (readEntries? value.2).map (⟨String.ofList key.1, String.ofList value.1⟩ :: ·)
  | _ => none
termination_by text => text.length
decreasing_by
  have hkey := length_spanPair_le ']' '=' text
  have hvalue := length_spanPair_le ' ' '[' ((spanPair ']' '=' text).2.drop 2)
  simp only [List.length_drop, List.length_cons] at hvalue ⊢
  omega

/-- The parameters of a block. -/
def readBlock? (block : String) : Option (List SiteParam) := do
  let inner ← block.toList.dropPrefix? "(".toList
  let entries ← inner.dropSuffix? " )".toList
  readEntries? entries

/-- A block is its entries one after the other, in parentheses. -/
theorem toList_paramBlock (params : List SiteParam) : (paramBlock params).toList =
    "(".toList ++ params.flatMap SiteParam.chars ++ " )".toList := by
  have hentry : ∀ param : SiteParam,
      s!" [{param.key}]={param.value}".toList = param.chars := by
    intro param
    show (" [" ++ param.key ++ "]=" ++ param.value).toList = _
    simp only [String.toList_append, SiteParam.chars, List.append_assoc]
  unfold paramBlock
  rw [String.toList_append, String.toList_append, String.toList_join, List.flatMap_map]
  exact congrArg (_ ++ · ++ _) (List.flatMap_congr fun param _ => hentry param)

/-- Behind an entry there is nothing, or the beginning of the next one. -/
theorem flatMap_chars_stops (params : List SiteParam) :
    params.flatMap SiteParam.chars = [] ∨ [' ', '['] <+: params.flatMap SiteParam.chars := by
  cases params with
  | nil => exact .inl rfl
  | cons param params =>
    refine .inr ?_
    rw [List.flatMap_cons, SiteParam.chars, List.append_assoc]
    exact List.prefix_append _ _

/-- Separable entries are read back one by one. -/
theorem readEntries?_flatMap {params : List SiteParam} (h : ∀ param ∈ params, param.IsSeparable) :
    readEntries? (params.flatMap SiteParam.chars) = some params := by
  induction params with
  | nil => rw [List.flatMap_nil, readEntries?]
  | cons param params ih =>
    obtain ⟨hparam, hparams⟩ := List.forall_mem_cons.mp h
    have hkey : spanPair ']' '=' (param.key.toList ++ (']' :: '=' ::
        (param.value.toList ++ params.flatMap SiteParam.chars))) = (param.key.toList, _) :=
      spanPair_append (by decide) hparam.key (.inr (by simp))
    have hvalue : spanPair ' ' '[' (param.value.toList ++ params.flatMap SiteParam.chars) =
        (param.value.toList, _) :=
      spanPair_append (by decide) hparam.value (flatMap_chars_stops params)
    have htext : (param :: params).flatMap SiteParam.chars = ' ' :: '[' ::
        (param.key.toList ++ (']' :: '=' ::
          (param.value.toList ++ params.flatMap SiteParam.chars))) := by
      simp [SiteParam.chars]
    -- the key ends at its first mark, the value in front of the next entry
    rw [htext, readEntries?, hkey]
    show (if _ then _ else (readEntries? (spanPair ' ' '[' _).2).map _) = _
    rw [if_neg (List.cons_ne_nil _ _), List.drop_succ_cons, List.drop_succ_cons, List.drop_zero,
      hvalue, ih hparams, String.ofList_toList, String.ofList_toList]
    rfl

/-- What is read is what the entries are made of, and each part ends where the next one begins. -/
theorem of_readEntries? {text : List Char} {params : List SiteParam}
    (h : readEntries? text = some params) :
    (∀ param ∈ params, param.IsSeparable) ∧ params.flatMap SiteParam.chars = text := by
  fun_induction readEntries? text generalizing params with
  | case1 =>
    cases h
    exact ⟨List.forall_mem_nil _, rfl⟩
  | case2 => cases h
  | case3 text key value hne =>
    rename_i ih
    obtain ⟨more, hmore, rfl⟩ := Option.map_eq_some_iff.mp h
    obtain ⟨hseparable, hchars⟩ := ih hmore
    obtain ⟨rest, hrest⟩ := (spanPair_stops ']' '=' text).resolve_left hne
    -- what was cut off a text at a mark, put together again, is the text
    have htext : key.1 ++ key.2 = text := spanPair_append_self ']' '=' text
    have hvalue : value.1 ++ value.2 = key.2.drop 2 := spanPair_append_self ' ' '[' _
    refine ⟨List.forall_mem_cons.mpr ⟨⟨?_, ?_⟩, hseparable⟩, ?_⟩
    · rw [String.toList_ofList (l := key.1)]
      exact not_infix_spanPair ']' '=' text
    · rw [String.toList_ofList (l := value.1)]
      exact not_infix_spanPair ' ' '[' _
    · have hkey : key.2 = ']' :: '=' :: rest := hrest.symm
      rw [hkey] at hvalue htext
      rw [List.flatMap_cons, hchars, ← htext]
      have hbehind : value.1 ++ value.2 = rest := hvalue
      simp [SiteParam.chars, hbehind]
  | case4 => cases h

/-- A text is a block of parameters that can be told apart just if it is read as these. -/
theorem readBlock?_eq_some_iff {block : String} {params : List SiteParam} :
    readBlock? block = some params ↔
      (∀ param ∈ params, param.IsSeparable) ∧ paramBlock params = block := by
  unfold readBlock?
  rw [← String.toList_inj, toList_paramBlock]
  constructor
  · intro h
    obtain ⟨inner, hinner, h⟩ := Option.bind_eq_some_iff.mp h
    obtain ⟨entries, hentries, h⟩ := Option.bind_eq_some_iff.mp h
    obtain ⟨front, hblock, hfront⟩ := List.dropPrefix?_eq_some_iff.mp hinner
    obtain ⟨back, hback, hend⟩ := List.dropSuffix?_eq_some_iff.mp hentries
    obtain ⟨hseparable, hchars⟩ := of_readEntries? h
    rw [beq_iff_eq] at hfront hend
    rw [hblock, hback, hchars, hfront, hend, List.append_assoc]
    exact ⟨hseparable, rfl⟩
  · rintro ⟨hseparable, hblock⟩
    have hinner : block.toList.dropPrefix? "(".toList =
        some (params.flatMap SiteParam.chars ++ " )".toList) :=
      List.dropPrefix?_eq_some_iff.mpr ⟨_, by rw [← hblock, List.append_assoc], beq_self_eq_true _⟩
    have hentries : (params.flatMap SiteParam.chars ++ " )".toList).dropSuffix? " )".toList =
        some (params.flatMap SiteParam.chars) :=
      List.dropSuffix?_eq_some_iff.mpr ⟨_, rfl, beq_self_eq_true _⟩
    rw [hinner, Option.bind_eq_bind, Option.bind_some, hentries]
    exact readEntries?_flatMap hseparable

/-- Parameters whose keys and values do not have the texts in them that end keys and begin entries
are read back from their block, so no other such parameters have the same one. -/
theorem readBlock?_paramBlock (params : List SiteParam)
    (h : ∀ param ∈ params, param.IsSeparable) :
    readBlock? (paramBlock params) = some params ∧
      ∀ others : List SiteParam, (∀ param ∈ others, param.IsSeparable) →
        paramBlock others = paramBlock params → others = params := by
  have hread : readBlock? (paramBlock params) = some params := readBlock?_eq_some_iff.mpr ⟨h, rfl⟩
  refine ⟨hread, fun others hothers hblock => ?_⟩
  have hother : readBlock? (paramBlock params) = some others :=
    readBlock?_eq_some_iff.mpr ⟨hothers, hblock⟩
  exact Option.some.inj (hother.symm.trans hread)

/-- Parameters with nothing in them, and with much that looks like the text around them. -/
def bracketedParams : List SiteParam := [⟨"", ""⟩, ⟨" [a]", "b ) "⟩, ⟨"]", "]= )"⟩]

/-- Brackets and parentheses in keys and values do not get in the way of reading a block back. -/
theorem readBlock?_bracketedParams :
    (∀ param ∈ bracketedParams, param.IsSeparable) ∧
      paramBlock bracketedParams = "( []= [ [a]]=b )  []]=]= ) )" ∧
      readBlock? "( []= [ [a]]=b )  []]=]= ) )" = some bracketedParams ∧
      ∀ others : List SiteParam, (∀ param ∈ others, param.IsSeparable) →
        paramBlock others = "( []= [ [a]]=b )  []]=]= ) )" → others = bracketedParams := by
  have hseparable : ∀ param ∈ bracketedParams, param.IsSeparable := by decide +kernel
  have hblock : paramBlock bracketedParams = "( []= [ [a]]=b )  []]=]= ) )" := by decide +kernel
  obtain ⟨hread, hothers⟩ := readBlock?_paramBlock bracketedParams hseparable
  rw [hblock] at hread hothers
  exact ⟨hseparable, hblock, hread, hothers⟩

-- a value that is not separable can pass for another entry
example : paramBlock [⟨"X", "a] [Y]=b"⟩] = paramBlock [⟨"X", "a]"⟩, ⟨"Y", "b"⟩] := by decide

end Provision
