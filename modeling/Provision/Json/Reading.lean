import Provision.Complaint
import Provision.Json.Source
import Provision.Settings.Basic

/-!
# Reading a JSON document

A reading takes what it is asked for from the tree of a document, in document order; the first
thing that is wrong ends it. Values that are read nest at most 127 deep, values that are skipped
as deep as they like.
-/

namespace Provision.Json

/-- Why a document was not read. -/
inductive Fault
  | broken (cause : Break)
  | complaint (complaint : Complaint)

/-- A reading of a document. -/
abbrev Reading := Except Fault

/-- How deep the collections of a document may nest. -/
def depthLimit : Nat := 127

namespace Reading

variable {α : Type}

def complain (complaint : Complaint) : Reading α :=
  throw (.complaint complaint)

def brokenOff (cause : Break) : Reading α :=
  throw (.broken cause)

/-- A text that was spelled. -/
def spelled : Except Break String → Reading String
  | .ok s => .ok s
  | .error cause => brokenOff cause

mutual

/-- How the grammar is broken within a value, for one who skips it. -/
def broken? : Source → Option Break
  | .list items => brokenItem? items
  | .table entries => brokenMember? entries
  | .cut _ skipped _ => some skipped
  | .null | .bool _ | .number _ | .text _ => none

def brokenItem? : List Source → Option Break
  | [] => none
  | item :: rest => (broken? item).or (brokenItem? rest)

def brokenMember? : List (Except Break String × Source) → Option Break
  | [] => none
  | (_, value) :: rest => (broken? value).or (brokenMember? rest)

end

/-- Takes no notice of a value, but does not get past a cut. -/
def skip (source : Source) : Reading Unit :=
  match broken? source with
  | some cause => brokenOff cause
  | none => return ()

/-- What a source is, in a place where something else belongs. -/
def found : Source → Reading Found
  | .null => return .atom .null
  | .bool b => return .atom (.bool b)
  | .number (some atom) => return .atom atom
  | .number none => brokenOff .malformed
  | .text t => return .atom (.text (← spelled t))
  | .list _ => return .list
  | .table _ => return .table
  | .cut cause _ _ => brokenOff cause

/-- Complains that a source is not what belongs there. -/
def mismatch (expected : Expected) (source : Source) : Reading α := do
  complain (.wrongType (← found source) expected)

/-! ## Single values -/

def text : Source → Reading String
  | .text t => spelled t
  | source => mismatch .text source

def flag : Source → Reading Bool
  | .bool b => return b
  | source => mismatch .flag source

def port : Source → Reading UInt16
  | .number (some (.int n)) =>
    if 0 ≤ n ∧ n < Nat.pow 2 16 then return n.toNat.toUInt16
    else complain (.wrongValue (.atom (.int n)) .port)
  | source => mismatch .port source

/-- Reads a value unless it is null. -/
def optional (read : Source → Reading α) : Source → Reading (Option α)
  | .null => return none
  | source => some <$> read source

/-! ## Lists -/

/-- Reads a list, its items one level down. -/
def list (read : Nat → Source → Reading α) (depth : Nat) : Source → Reading (List α)
  | .list sources =>
    match depth with
    | 0 => brokenOff .malformed
    | depth + 1 => sources.mapM (read depth)
  | source => mismatch .list source

/-! ## Free values -/

/-- Reads the entries of a table; no key may repeat. -/
def tableEntries (read : Source → Reading Value) : List (Except Break String × Source) →
    (before : List (Value × Value)) → Reading (List (Value × Value))
  | [], before => return before.reverse
  | (key, source) :: rest, before => do
    let key := Value.text (← spelled key)
    if Value.hasKey before key then complain (.repeatedKey key)
    tableEntries read rest ((key, ← read source) :: before)

/-- Reads a value, its parts by `inner`. -/
def valueBy (inner : Option (Source → Reading Value)) : Source → Reading Value
  | .null => return .null
  | .bool b => return .bool b
  | .number (some atom) =>
    match Value.ofAtom? atom with
    | some value => return value
    | none => complain (.wrongType (.atom atom) .value)
  | .number none => brokenOff .malformed
  | .text t => return .text (← spelled t)
  | .list sources =>
    match inner with
    | none => brokenOff .malformed
    | some read => .list <$> sources.mapM read
  | .table entries =>
    match inner with
    | none => brokenOff .malformed
    | some read => .table <$> tableEntries read entries []
  | .cut cause _ _ => brokenOff cause

/-- Reads a value whose collections nest up to `depth` deep. -/
def value : (depth : Nat) → Source → Reading Value
  | 0 => valueBy none
  | depth + 1 => valueBy (some (value depth))

/-- Reads whether a value counts as true: all but null and false do. -/
def truth (depth : Nat) (source : Source) : Reading Bool := do
  match ← optional (value depth) source with
  | none | some .null | some (.bool false) => return false
  | some _ => return true

/-- Reads options by name. A repeated name keeps its first place and takes the last value. -/
def optionEntries (depth : Nat) : List (Except Break String × Source) → Options →
    Reading Options
  | [], options => return options
  | (key, source) :: rest, options => do
    let name ← spelled key
    let value ← value depth source
    optionEntries depth rest (options.set name value)

/-- Reads options. -/
def options (depth : Nat) : Source → Reading Options
  | .table entries =>
    match depth with
    | 0 => brokenOff .malformed
    | depth + 1 => optionEntries depth entries []
  | source => mismatch .table source

/-! ## Scalars of any type -/

/-- Reads the entries of a table whose content does not matter. -/
def contentEntries (read : Source → Reading (Option Atom)) :
    List (Except Break String × Source) → Reading Unit
  | [] => return ()
  | (key, source) :: rest => do
    let _ ← spelled key
    let _ ← read source
    contentEntries read rest

/-- Reads what should be a scalar, its parts by `inner`; none when it is a collection. -/
def contentBy (inner : Option (Source → Reading (Option Atom))) : Source → Reading (Option Atom)
  | .list sources =>
    match inner with
    | none => brokenOff .malformed
    | some read => do
      let _ ← sources.mapM read
      return none
  | .table entries =>
    match inner with
    | none => brokenOff .malformed
    | some read => do
      contentEntries read entries
      return none
  | source => do
    match ← found source with
    | .atom atom => return some atom
    | .list | .table => return none

/-- Reads what should be a scalar, through collections that nest up to `depth` deep. -/
def content : (depth : Nat) → Source → Reading (Option Atom)
  | 0 => contentBy none
  | depth + 1 => contentBy (some (content depth))

/-- Reads a scalar of any type as text. -/
def scalarText (depth : Nat) (source : Source) : Reading String := do
  match (← content depth source).bind Atom.fieldText? with
  | some s => return s
  | none => complain .noScalar

end Reading

end Provision.Json
