/-!
# Places in a document
-/

namespace Provision.Yaml

/-- The way from the root of a document to a node. -/
inductive Path
  | root
  | item (parent : Path) (index : Nat)
  | field (parent : Path) (key : String)
  /-- Under a key that is not written out as a scalar. -/
  | unnamed (parent : Path)
deriving DecidableEq, Repr

namespace Path

/-- A path as a complaint shows it. -/
def text : Path → String
  | .root => "."
  | .item parent index => parent.text ++ "[" ++ Nat.repr index ++ "]"
  | .field .root key => key
  | .field parent key => parent.text ++ "." ++ key
  | .unnamed .root => "?"
  | .unnamed parent => parent.text ++ ".?"

end Path

end Provision.Yaml
