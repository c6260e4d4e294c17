import Provision.Yaml.Token.Scalar

/-!
# Reading anchors, tags and directives
-/

namespace Provision.Yaml

/-- Reads the name of an anchor or alias, which a blank or one of a few indicators must follow. -/
def readAnchorName (c : Cursor) : Except SyntaxFault (List Char × Cursor) :=
  let (name, c) := c.span isNameChar
  if name.isEmpty || !(endsWord c.next? || c.next?.any ("?:,]\x7d%@\x60".toList.contains ·)) then
    .error .badAnchor
  else .ok (name, c)

/-! ## Tags -/

/-- The number of octets in a UTF-8 sequence, from its first one. -/
def sequenceLength? (first : Nat) : Option Nat :=
  if first < 0x80 then some 1
  else if 0xc0 ≤ first ∧ first < 0xe0 then some 2
  else if 0xe0 ≤ first ∧ first < 0xf0 then some 3
  else if 0xf0 ≤ first ∧ first < 0xf8 then some 4
  else none

/-- Reads one `%xx` escape. -/
def readOctet (c : Cursor) : Except SyntaxFault (Nat × Cursor) :=
  match c.rest with
  | '%' :: high :: low :: _ =>
    match hexValue? high, hexValue? low with
    | some h, some l => .ok (16 * h + l, c.skip 3)
    | _, _ => .error .badTag
  | _ => .error .badTag

/-- Reads `n` escapes that continue a UTF-8 sequence. -/
def readContinuation : (n : Nat) → Cursor → Except SyntaxFault (List UInt8 × Cursor)
  | 0, c => .ok ([], c)
  | n + 1, c => do
    let (octet, c) ← readOctet c
    if octet < 0x80 || 0xc0 ≤ octet then throw .badTag
    let (octets, c) ← readContinuation n c
    return (UInt8.ofNat octet :: octets, c)

/-- Reads the characters and escapes of a tag. -/
def readTagOctets (verbatim : Bool) :
    (fuel : Nat) → Cursor → Except SyntaxFault (List UInt8 × Cursor)
  | 0, c => .ok ([], c)
  | fuel + 1, c =>
    match c.next? with
    | none => .ok ([], c)
    | some x =>
      if !isTagChar verbatim x then .ok ([], c)
      else if x == '%' then do
        let (first, c) ← readOctet c
        let some length := sequenceLength? first | throw .badTag
        let (octets, c) ← readContinuation (length - 1) c
        let (others, c) ← readTagOctets verbatim fuel c
        return (UInt8.ofNat first :: octets ++ others, c)
      else do
        let (others, c) ← readTagOctets verbatim fuel (c.skip 1)
        return (UInt8.ofNat x.toNat :: others, c)

/-- Reads the characters of a tag, at least one unless `head` has some; what follows an escaped
null character does not count. -/
def readTagText (verbatim : Bool) (head : List Char) (c : Cursor) :
    Except SyntaxFault (List UInt8 × Cursor) := do
  let (octets, c) ← readTagOctets verbatim c.rest.length c
  if head.isEmpty && octets.isEmpty then throw .badTag
  let all := (head.drop 1).map (fun x => UInt8.ofNat x.toNat) ++ octets
  return (all.takeWhile (· != 0), c)

/-- Reads a tag handle: `!`, or a name between two of them. Without the second one the characters
read may still be the beginning of a local tag. -/
def readTagHandle (c : Cursor) : Except SyntaxFault (List Char × Cursor) :=
  if c.next? != some '!' then .error .badTag
  else
    let (name, after) := (c.skip 1).span isNameChar
    if after.next? == some '!' then .ok ('!' :: name ++ ['!'], after.skip 1)
    else .ok ('!' :: name, after)

/-- Reads a tag: verbatim between angle brackets, after a handle, or local after a single `!`. The
tag `!` alone has no handle. -/
def readTag (flow : Bool) (c : Cursor) : Except SyntaxFault (Token × Cursor) := do
  let (token, c) ← do
    if c.rest[1]? == some '<' then
      let (suffix, c) ← readTagText true [] (c.skip 2)
      if c.next? != some '>' then throw .badTag
      pure (Token.tag [] suffix, c.skip 1)
    else
      let (handle, after) ← readTagHandle c
      if 1 < handle.length && handle.getLast? == some '!' then
        let (suffix, c) ← readTagText false [] after
        pure (Token.tag handle suffix, c)
      else
        let (suffix, c) ← readTagText false handle after
        if suffix.isEmpty then pure (Token.tag [] ['!'.toUInt8], c)
        else pure (Token.tag ['!'] suffix, c)
  if endsWord c.next? || (flow && c.next? == some ',') then return (token, c)
  throw .badTag

/-! ## Directives -/

/-- Reads a number of at most nine digits. -/
def readVersionNumber (c : Cursor) : Except SyntaxFault (Nat × Cursor) :=
  let (digits, c) := c.span Char.isDigit
  if digits.isEmpty || 9 < digits.length then .error .badVersion
  else .ok (digits.foldl (fun n d => 10 * n + (d.toNat - '0'.toNat)) 0, c)

/-- Reads a directive and the rest of its line. -/
def readDirective (c : Cursor) : Except SyntaxFault (Token × Cursor) := do
  let (name, c) := (c.skip 1).span isNameChar
  if name.isEmpty || !endsWord c.next? then throw .badDirective
  let c := c.skipWhile isBlank
  let (token, c) ← do
    if name = ['Y', 'A', 'M', 'L'] then
      let (major, c) ← readVersionNumber c
      if c.next? != some '.' then throw .badVersion
      let (minor, c) ← readVersionNumber (c.skip 1)
      pure (Token.version major minor, c)
    else if name = ['T', 'A', 'G'] then
      let (handle, c) ← readTagHandle c
      if 1 < handle.length && handle.getLast? != some '!' then throw .badTag
      if !c.next?.any isBlank then throw .badTag
      let (expansion, c) ← readTagText true [] (c.skipWhile isBlank)
      if !endsWord c.next? then throw .badTag
      pure (Token.tagDirective handle expansion, c)
    else throw .badDirective
  return (token, ← readLineEnd .badDirective c)

end Provision.Yaml
