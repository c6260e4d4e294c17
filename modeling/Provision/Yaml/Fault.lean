/-!
# Why a text is not YAML
-/

namespace Provision.Yaml

/-- The ways in which a text can break the rules of YAML 1.1. -/
inductive SyntaxFault
  | controlCharacter
  | noTokenStart
  | keyWithoutColon
  | entryNotAllowed
  | keyNotAllowed
  | valueNotAllowed
  | badDirective
  | badVersion
  | repeatedDirective
  | badAnchor
  | badTag
  | undefinedTagHandle
  | badBlockHeader
  | tabInIndentation
  | markerInQuotes
  | unclosedQuote
  | badEscape
  | colonInFlow
  | expectedDocumentStart
  | expectedNode
  | expectedEntry
  | expectedKey
  | expectedSequenceEnd
  | expectedMappingEnd
deriving DecidableEq, Repr

end Provision.Yaml
