import Provision.Number.Format
import Provision.Value

/-!
# JSON trees

What is written as JSON is first a tree. Values become trees when their keys can be told by a
text; numbers that JSON does not have become null.
-/

namespace Provision

/-- A JSON tree; objects keep their members in order. -/
inductive Json
  | null
  | bool (b : Bool)
  | int (n : Int)
  | float (x : Double)
  | text (s : String)
  | list (items : List Json)
  | object (members : List (String × Json))

namespace Json

/-- Why a value has no JSON tree. -/
inductive KeyFault
  /-- A key that is null, a list, a table or tagged. -/
  | noText
  /-- A key that is infinite or not a number. -/
  | notFinite
deriving DecidableEq, Repr

/-- The words for a key without a text. -/
def KeyFault.message : KeyFault → String
  | .noText => "key must be a string"
  | .notFinite => "float key must be finite (got NaN or +/-inf)"

/-- The text of a key. -/
def keyText : Value → Except KeyFault String
  | .text s => .ok s
  | .bool b => .ok (if b then "true" else "false")
  | .int n => .ok (toString n)
  | .float x => if x.isFinite then .ok (x.text .json) else .error .notFinite
  | .null | .list _ | .table _ | .tagged _ _ => .error .noText

mutual

/-- The tree of a value. -/
def ofValue : Value → Except KeyFault Json
  | .null => .ok .null
  | .bool b => .ok (.bool b)
  | .int n => .ok (.int n)
  | .float x => .ok (if x.isFinite then .float x else .null)
  | .text s => .ok (.text s)
  | .list items => return .list (← ofItems items)
  | .table entries => return .object (← ofEntries entries)
  | .tagged name value => return .object [("!" ++ name, ← ofValue value)]

def ofItems : List Value → Except KeyFault (List Json)
  | [] => .ok []
  | item :: rest => return (← ofValue item) :: (← ofItems rest)

def ofEntries : List (Value × Value) → Except KeyFault (List (String × Json))
  | [] => .ok []
  | (key, value) :: rest => do
    let name ← keyText key
    return (name, ← ofValue value) :: (← ofEntries rest)

end

/-! ## Text -/

/-- The digits of a code point below 256 as `\u` escapes write them. -/
def hexDigits (n : Nat) : List Char :=
  let digits := Nat.toDigits 16 n
  List.replicate (4 - digits.length) '0' ++ digits

/-- A character within quotes. -/
def escapedChar (c : Char) : List Char :=
  match c with
  | '"' => ['\\', '"']
  | '\\' => ['\\', '\\']
  | '\n' => ['\\', 'n']
  | '\r' => ['\\', 'r']
  | '\t' => ['\\', 't']
  | '\x08' => ['\\', 'b']
  | '\x0c' => ['\\', 'f']
  | c => if c.toNat < 0x20 then ['\\', 'u'] ++ hexDigits c.toNat else [c]

/-- A text within quotes. -/
def quoted (s : String) : List Char :=
  '"' :: s.toList.flatMap escapedChar ++ ['"']

/-- A line break with the indentation of a depth. -/
def newline (depth : Nat) : List Char :=
  '\n' :: List.replicate (2 * depth) ' '

mutual

/-- The characters of a tree, members and items on lines of their own. -/
def chars (depth : Nat) : Json → List Char
  | .null => ['n', 'u', 'l', 'l']
  | .bool true => ['t', 'r', 'u', 'e']
  | .bool false => ['f', 'a', 'l', 's', 'e']
  | .int n => (toString n).toList
  | .float x => (x.text .json).toList
  | .text s => quoted s
  | .list [] => ['[', ']']
  | .list (item :: rest) =>
    '[' :: newline (depth + 1) ++ chars (depth + 1) item ++ restItems (depth + 1) rest ++
      newline depth ++ [']']
  | .object [] => ['{', '}']
  | .object ((name, value) :: rest) =>
    '{' :: newline (depth + 1) ++ quoted name ++ ':' :: ' ' :: chars (depth + 1) value ++
      restMembers (depth + 1) rest ++ newline depth ++ ['}']

/-- The items of a list after the first. -/
def restItems (depth : Nat) : List Json → List Char
  | [] => []
  | item :: rest => ',' :: newline depth ++ chars depth item ++ restItems depth rest

/-- The members of an object after the first. -/
def restMembers (depth : Nat) : List (String × Json) → List Char
  | [] => []
  | (name, value) :: rest =>
    ',' :: newline depth ++ quoted name ++ ':' :: ' ' :: chars depth value ++
      restMembers depth rest

end

/-- The text of a tree, indented by two blanks a level. -/
def pretty (tree : Json) : String :=
  String.ofList (tree.chars 0)

/-! ## Sorted trees -/

/-- Puts a member in its place by name, in the place of one with the same name. -/
def insertMember (name : String) (value : Json) : List (String × Json) → List (String × Json)
  | [] => [(name, value)]
  | (other, found) :: rest =>
    if name = other then (name, value) :: rest
    else if name < other then (name, value) :: (other, found) :: rest
    else (other, found) :: insertMember name value rest

/-- Members sorted by name; of several with one name the last one stays. -/
def sortMembers (members : List (String × Json)) : List (String × Json) :=
  members.foldl (fun sorted (name, value) => insertMember name value sorted) []

mutual

/-- The tree with the members of all its objects sorted. -/
def sorted : Json → Json
  | .list items => .list (sortedItems items)
  | .object members => .object (sortMembers (sortedMembers members))
  | tree => tree

def sortedItems : List Json → List Json
  | [] => []
  | item :: rest => sorted item :: sortedItems rest

def sortedMembers : List (String × Json) → List (String × Json)
  | [] => []
  | (name, value) :: rest => (name, sorted value) :: sortedMembers rest

end

mutual

/-- The value with the same tree. -/
def toValue : Json → Value
  | .null => .null
  | .bool b => .bool b
  | .int n => .int n
  | .float x => .float x
  | .text s => .text s
  | .list items => .list (itemValues items)
  | .object members => .table (memberValues members)

def itemValues : List Json → List Value
  | [] => []
  | item :: rest => toValue item :: itemValues rest

def memberValues : List (String × Json) → List (Value × Value)
  | [] => []
  | (name, value) :: rest => (.text name, toValue value) :: memberValues rest

end

end Json

end Provision
