/-!
# Tokens of a YAML document
-/

namespace Provision.Yaml

/-- How a scalar is written. -/
inductive ScalarStyle
  | plain
  | singleQuoted
  | doubleQuoted
  | literal
  | folded
deriving DecidableEq, Repr

/-- A token. Block collections have their start and end made explicit from the indentation, and
the key of a mapping entry is announced before it. Tag suffixes are octets, because escapes in
them spell octets. -/
inductive Token
  | version (major minor : Nat)
  | tagDirective (handle : List Char) (expansion : List UInt8)
  | documentStart
  | documentEnd
  | streamEnd
  | blockSequenceStart
  | blockMappingStart
  | blockEnd
  | flowSequenceStart
  | flowSequenceEnd
  | flowMappingStart
  | flowMappingEnd
  | blockEntry
  | flowEntry
  | key
  | value
  | alias (name : List Char)
  | anchor (name : List Char)
  | tag (handle : List Char) (suffix : List UInt8)
  | scalar (style : ScalarStyle) (text : List Char)
deriving DecidableEq, Repr

end Provision.Yaml
