import ArchFacts.Yaml.Cursor
import ArchFacts.Yaml.Token

/-!
# Names, tags and directives

Tokens that are made of names: anchors and aliases, the tags of nodes, and the directives that may
stand before a document, which state the version of YAML or the handle of a tag. A tag is a URI, in
which any byte can be escaped with a percent sign.

A reader starts at the sign that begins the token.
-/

namespace ArchFacts.Yaml

/-- The name that stands here; it can be empty. -/
def nameHere (cs : List Char) : List Char := cs.takeWhile isNameChar

/-- The name of an anchor or an alias, and the point behind it. -/
def anchorName? (s : Cursor) : Option (String × Cursor) :=
  let name := nameHere (s.skip 1).rest
  let s := s.skip (1 + name.length)
  let ended := match s.rest with
    | c :: _ => endsWord [c] || ['?', ':', ',', ']', '\x7d', '%', '@', '\x60'].contains c
    | [] => true
  if !name.isEmpty && ended then some (String.ofList name, s) else none

/-! ### Tags -/

/-- The characters of a URI besides those of a name and the percent sign. A comma or a bracket
belongs to it only where the end of the URI is marked in another way. -/
def uriMarks (bracketed : Bool) : List Char :=
  [';', '/', '?', ':', '@', '&', '=', '+', '$', '.', '!', '~', '*', '\x27', '(', ')'] ++
    if bracketed then [',', '[', ']'] else []

/-- How many bytes a character has in UTF-8, by its first byte. -/
def byteCount? (first : Nat) : Option Nat :=
  if first < 0x80 then some 1
  else if first < 0xC0 then none
  else if first < 0xE0 then some 2
  else if first < 0xF0 then some 3
  else if first < 0xF8 then some 4
  else none

/-- The bytes of a URI, and what comes after it. Of an escaped character so many bytes are still to
come as `pending` says. -/
def uriBytes? (bracketed : Bool) (pending : Nat) : List Char → Option (List UInt8 × List Char)
  | '%' :: a :: b :: rest => do
    let byte ← digits? 16 [a, b]
    let left ← if pending = 0 then (byteCount? byte).map (· - 1)
      else if 0x80 ≤ byte ∧ byte < 0xC0 then some (pending - 1) else none
    let (bytes, after) ← uriBytes? bracketed left rest
    return (.ofNat byte :: bytes, after)
  | c :: rest =>
    if c = '%' ∨ pending ≠ 0 then none
    else if isNameChar c ∨ (uriMarks bracketed).contains c then
      (uriBytes? bracketed 0 rest).map fun r => (.ofNat c.toNat :: r.1, r.2)
    else some ([], c :: rest)
  | [] => if pending ≠ 0 then none else some ([], [])

/-- The bytes of a URI, and what comes after it; one that has to be there is not empty. A null ends
what counts of it. -/
def uri? (bracketed required : Bool) (cs : List Char) : Option (List UInt8 × List Char) := do
  let (bytes, after) ← uriBytes? bracketed 0 cs
  if required && bytes.isEmpty then none
  return (bytes.takeWhile (· ≠ 0), after)

/-- The tag that stands here: a URI between angles, a handle and the rest of a URI, or the rest
alone after an exclamation mark. A single exclamation mark is a tag of its own. -/
def tag? (flow : Bool) (s : Cursor) : Option (Token × Cursor) := do
  let (tag, after) ← match (s.skip 1).rest with
    | '<' :: inside => do
      let (bytes, after) ← uri? true true inside
      match after with
      | '>' :: after => some (Token.tag "" bytes, after)
      | _ => none
    | word =>
      let name := nameHere word
      match word.drop name.length with
      | '!' :: rest => do
        let (bytes, after) ← uri? false true rest
        some (Token.tag (String.ofList ('!' :: (name ++ ['!']))) bytes, after)
      | rest => do
        let (bytes, after) ← uri? false false rest
        let bytes := name.map (fun c => UInt8.ofNat c.toNat) ++ bytes
        some (if bytes = [] then .tag "" [33] else .tag "!" bytes, after)
  if endsWord after || (flow && after.head? == some ',') then some (tag, s.upTo after) else none

/-! ### Directives -/

/-- The number that stands here, of nine digits at most, and the point behind it. -/
def versionNumber? (s : Cursor) : Option (Nat × Cursor) := do
  let digits := s.rest.takeWhile Char.isDigit
  if 9 < digits.length then none
  let n ← digits? 10 digits
  return (n, s.skip digits.length)

/-- The version that stands here: two numbers and a point between them. -/
def version? (s : Cursor) : Option (Token × Cursor) := do
  let (major, s) ← versionNumber? s
  if s.rest.head? ≠ some '.' then none
  let (minor, s) ← versionNumber? (s.skip 1)
  return (.version major minor, s)

/-- The handle that stands here, and the start of the tags it stands for. -/
def tagHandle? (s : Cursor) : Option (Token × Cursor) := do
  if s.rest.head? ≠ some '!' then none
  let name := nameHere (s.skip 1).rest
  let after := (s.skip (1 + name.length)).rest
  let handle ← match name, after with
    | name, '!' :: _ => some ('!' :: (name ++ ['!']))
    | [], _ => some ['!']
    | _, _ => none
  let s := s.skip handle.length
  if !s.rest.head?.any isGap then none
  let s := s.skipWhile isGap
  let (start, after) ← uri? true true s.rest
  if endsWord after then some (.tagHandle (String.ofList handle) start, s.upTo after) else none

/-- The directive that stands here. It takes up the rest of the line. -/
def directive? (s : Cursor) : Option (Token × Cursor) := do
  let name := nameHere (s.skip 1).rest
  let s := s.skip (1 + name.length)
  if !endsWord s.rest then none
  let s := s.skipWhile isGap
  let (token, s) ← match String.ofList name with
    | "YAML" => version? s
    | "TAG" => tagHandle? s
    | _ => none
  return (token, ← s.nextLine?)

end ArchFacts.Yaml
