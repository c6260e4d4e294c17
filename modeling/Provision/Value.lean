import Provision.Number.Double

/-!
# Free-form values

The options of a shared folder may hold any value a document can express. Tables keep their
entries in document order; two of them are the same when they hold the same entries in any order,
and no table a document yields holds a key twice.
-/

namespace Provision

/-- A single value as a document spells it. -/
inductive Atom
  | null
  | bool (b : Bool)
  /-- An integer of at most 64 bits, with or without a sign. -/
  | int (n : Int)
  /-- An integer of at most 128 bits; no value holds one. -/
  | wideInt (n : Int)
  | float (x : Double)
  | text (s : String)
deriving DecidableEq

/-- A value a document can express. -/
inductive Value
  | null
  | bool (b : Bool)
  | int (n : Int)
  | float (x : Double)
  | text (s : String)
  | list (items : List Value)
  | table (entries : List (Value × Value))
  /-- A value under a tag of the document's own. -/
  | tagged (name : String) (value : Value)

namespace Value

/-- The value an atom spells. -/
def ofAtom? : Atom → Option Value
  | .null => some .null
  | .bool b => some (.bool b)
  | .int n => some (.int n)
  | .wideInt _ => none
  | .float x => some (.float x)
  | .text s => some (.text s)

mutual

/-- Whether two values are the same, tables without regard to the order of their entries. -/
def same : Value → Value → Bool
  | .null, .null => true
  | .bool a, .bool b => a == b
  | .int m, .int n => m == n
  | .float x, .float y => x.sameKey y
  | .text s, .text t => s == t
  | .list xs, .list ys => sameItems xs ys
  | .table xs, .table ys => xs.length == ys.length && within xs ys
  | .tagged s x, .tagged t y => s == t && same x y
  | _, _ => false

/-- Whether two lists hold the same values in the same order. -/
def sameItems : List Value → List Value → Bool
  | [], [] => true
  | x :: xs, y :: ys => same x y && sameItems xs ys
  | _, _ => false

/-- Whether every entry on the left occurs on the right. -/
def within : List (Value × Value) → List (Value × Value) → Bool
  | [], _ => true
  | (key, value) :: rest, ys =>
    ys.any (fun entry => same key entry.1 && same value entry.2) && within rest ys

end

/-- Whether a table has an entry with this key. -/
def hasKey (entries : List (Value × Value)) (key : Value) : Bool :=
  entries.any fun entry => entry.1.same key

end Value

end Provision
