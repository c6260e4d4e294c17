/-!
# Host paths as text

A host path is the text that names it; nothing is normalized. Joining puts one separator between
two parts, and an absolute second part stands for itself. The parent of a path is a prefix of its
text: the last component goes, together with the separators and lone dots around it.
-/

namespace Provision

/-- The text of a path on the host, with `/` as the separator. -/
abbrev HostPath := String

namespace HostPath

/-- Whether the path starts at the root. -/
def isAbsolute (path : HostPath) : Bool :=
  path.toList.head? == some '/'

/-- `path` taken relative to `base`. -/
def join (base path : HostPath) : HostPath :=
  if isAbsolute path then path
  else if base.toList.isEmpty || base.toList.getLast? == some '/' then base ++ path
  else base ++ "/" ++ path

/-- The parts of a text between its separators, at least one. -/
def segments : List Char → List (List Char)
  | [] => [[]]
  | '/' :: rest => [] :: segments rest
  | c :: rest =>
    match segments rest with
    | first :: others => (c :: first) :: others
    | [] => [[c]]

/-- The text with these parts between its separators. -/
def ofSegments : List (List Char) → List Char
  | [] => []
  | [last] => last
  | first :: others => first ++ '/' :: ofSegments others

/-- The segments after the root, or of the whole text when it is relative; the last one first. -/
def backwards (path : HostPath) : List (List Char) :=
  match path.toList with
  | '/' :: rest => (segments rest).reverse
  | text => (segments text).reverse

/-- Whether a segment is a component, given those before it: an empty one never is, and a lone dot
only at the start of a relative path. -/
def isComponent (absolute : Bool) (segment : List Char) (before : List (List Char)) : Bool :=
  !segment.isEmpty && (segment != ['.'] || (before.isEmpty && !absolute))

/-- The segments up to the last component. -/
def trimmed (absolute : Bool) : List (List Char) → List (List Char)
  | [] => []
  | segment :: before =>
    if isComponent absolute segment before then segment :: before else trimmed absolute before

/-- What is left each time the last component goes, nearest first. -/
def shortened (absolute : Bool) : List (List Char) → List (List (List Char))
  | [] => []
  | segment :: before =>
    if isComponent absolute segment before then trimmed absolute before :: shortened absolute before
    else shortened absolute before

/-- The path whose segments, last one first, are given. -/
def ofBackwards (absolute : Bool) (segments : List (List Char)) : HostPath :=
  String.ofList ((if absolute then ['/'] else []) ++ ofSegments segments.reverse)

/-- The directories above a path, nearest first. -/
def parents (path : HostPath) : List HostPath :=
  (shortened (isAbsolute path) (backwards path)).map (ofBackwards (isAbsolute path))

/-- The path without its last component; none for a root and for the empty path. -/
def parent? (path : HostPath) : Option HostPath :=
  (parents path).head?

/-- The last component, unless that is a step upwards or there is none. -/
def lastName? (path : HostPath) : Option (List Char) :=
  match trimmed (isAbsolute path) (backwards path) with
  | name :: _ => if name = ['.', '.'] || name = ['.'] then none else some name
  | [] => none

/-- What follows the last dot of the last component, if a non-empty text precedes that dot. -/
def extension? (path : HostPath) : Option (List Char) := do
  let reversed := (← lastName? path).reverse
  let suffix := reversed.takeWhile (· != '.')
  match reversed.dropWhile (· != '.') with
  | _ :: _ :: _ => some suffix.reverse
  | _ => none

/-- Whether the last component ends in `.json`, in either case. -/
def isJson (path : HostPath) : Bool :=
  (extension? path).any fun suffix => suffix.map Char.toLower = ['j', 's', 'o', 'n']

/-- The last `/`-separated part of a path as written, separators at its end ignored. -/
def writtenName (raw : String) : String :=
  String.ofList ((raw.toList.reverse.dropWhile (· == '/')).takeWhile (· != '/')).reverse

end HostPath

end Provision
