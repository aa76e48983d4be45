import ArchFacts.Yaml.Block
import ArchFacts.Yaml.Plain
import ArchFacts.Yaml.Property

/-!
# Layout

`tokens?` reads a text as tokens. In a block the column decides: a block starts where
something stands further to the right than the block around it, and ends where something stands
further to the left.

A key is known as one only by the colon behind it. So wherever one may start, the point is kept, and
if a colon comes the token of the key is put in there, and the start of a mapping if it is the first
key of one. A key stands on one line, and has at most 1024 bytes up to its colon. What starts at the
column of the mapping around it has to be a key.
-/

namespace ArchFacts.Yaml

/-- Where something starts that may turn out to be a key. -/
structure KeyStart where
  start : Cursor
  /-- The number of tokens before it. -/
  before : Nat
  /-- Whether it has to be a key. -/
  required : Bool
  deriving DecidableEq, Repr

/-- The greatest number of bytes from the start of a key up to its colon. -/
def KeyStart.greatestSize : Nat := 1024

/-- Whether a key that starts here can have its colon at a point of the text. It has no more
characters than bytes. -/
def KeyStart.reaches (k : KeyStart) (s : Cursor) : Bool :=
  let length := s.column - k.start.column
  k.start.line == s.line && length ≤ greatestSize
    && (String.ofList (k.start.rest.take length)).utf8ByteSize ≤ greatestSize

/-- A text that has been read up to a point. -/
structure Layout where
  cursor : Cursor
  /-- The tokens up to here, last one first. -/
  tokens : List Token
  /-- The number of these tokens. -/
  count : Nat
  /-- The columns of the blocks around the point, innermost first. -/
  indents : List Nat
  /-- Whether a key may start here. -/
  keyAllowed : Bool
  /-- What may turn out to be a key. -/
  key : Option KeyStart
  /-- The same outside each of the flow collections around the point, innermost first. -/
  outer : List (Option KeyStart)
  deriving DecidableEq, Repr

namespace Layout

/-- The layout of a text of which nothing has been read. -/
def start (text : List Char) : Layout := ⟨.start text, [], 0, [], true, none, []⟩

/-- Whether the point is inside a flow collection. -/
def inFlow (s : Layout) : Bool := !s.outer.isEmpty

/-- The least column that is inside the innermost block. -/
def least (s : Layout) : Nat :=
  match s.indents with
  | indent :: _ => indent + 1
  | [] => 0

/-- The layout with a further token, which ends at a point. -/
def add (s : Layout) (token : Token) (cursor : Cursor) : Layout :=
  { s with tokens := token :: s.tokens, count := s.count + 1, cursor }

/-- The layout with a further token, which is so many characters long. -/
def addSign (s : Layout) (token : Token) (length : Nat) : Layout :=
  s.add token (s.cursor.skip length)

/-- The layout with a token put in behind the first tokens, so many as `before` says. -/
def insert (s : Layout) (before : Nat) (token : Token) : Layout :=
  let behind := s.count - before
  { s with
    tokens := s.tokens.take behind ++ token :: s.tokens.drop behind, count := s.count + 1 }

/-! ### Blocks -/

/-- Opens a block at a column, unless it is open or the point is inside a flow collection. Its start
is put in behind the first tokens, so many as `before` says. -/
def openBlock (s : Layout) (token : Token) (column before : Nat) : Layout :=
  if !s.inFlow && s.indents.head?.all (· < column) then
    { s.insert before token with indents := column :: s.indents }
  else s

/-- Closes the blocks at all columns but some outer ones. -/
def closeBlocks (s : Layout) (stays : Nat → Bool) : Layout :=
  if s.inFlow then s
  else
    let ends := (s.indents.takeWhile (!stays ·)).map fun _ => Token.blockEnd
    { s with
      indents := s.indents.dropWhile (!stays ·), tokens := ends ++ s.tokens
      count := s.count + ends.length }

/-! ### Keys -/

/-- Gives up what may be a key. -/
def dropKey? (s : Layout) : Option Layout :=
  if s.key.any (·.required) then none else some { s with key := none }

/-- Keeps the point as one where a key may start, if one may. -/
def keepKey? (s : Layout) : Option Layout :=
  if s.keyAllowed then
    let required := !s.inFlow && s.indents.head? == some s.cursor.column
    s.dropKey?.map fun s => { s with key := some ⟨s.cursor, s.count, required⟩ }
  else some s

/-- Gives up what can no longer be a key. What may be one outside a flow collection is looked at
when the collection has ended. -/
def dropFarKey? (s : Layout) : Option Layout :=
  if s.key.all (·.reaches s.cursor) then some s else s.dropKey?

/-! ### Tokens

Each reads the token that starts at the point.
-/

/-- A mark or a directive, which ends all blocks. -/
def between? (s : Layout) (read : Layout → Option Layout) : Option Layout := do
  let s ← (s.closeBlocks fun _ => false).dropKey?
  read { s with keyAllowed := false }

/-- A bracket or a brace that opens a flow collection. -/
def openFlow? (s : Layout) (token : Token) : Option Layout :=
  s.keepKey?.map fun s =>
    { s with outer := s.key :: s.outer, key := none, keyAllowed := true }.addSign token 1

/-- A bracket or a brace that closes a flow collection. -/
def closeFlow? (s : Layout) (token : Token) : Option Layout :=
  s.dropKey?.map fun s =>
    let s := match s.outer with
      | key :: outer => { s with key, outer }
      | [] => s
    { s with keyAllowed := false }.addSign token 1

/-- A comma. -/
def flowEntry? (s : Layout) : Option Layout :=
  s.dropKey?.map fun s => { s with keyAllowed := true }.addSign .flowEntry 1

/-- A dash before an item of a sequence. -/
def blockEntry? (s : Layout) : Option Layout :=
  if s.inFlow || s.keyAllowed then
    (s.openBlock .blockSequenceStart s.cursor.column s.count).dropKey?.map fun s =>
      { s with keyAllowed := true }.addSign .blockEntry 1
  else none

/-- A question mark before a key. -/
def explicitKey? (s : Layout) : Option Layout :=
  if s.inFlow || s.keyAllowed then
    (s.openBlock .blockMappingStart s.cursor.column s.count).dropKey?.map fun s =>
      { s with keyAllowed := !s.inFlow }.addSign .key 1
  else none

/-- A colon behind a key. -/
def value? (s : Layout) : Option Layout :=
  match s.key with
  | some k =>
    let s := (s.insert k.before .key).openBlock .blockMappingStart k.start.column k.before
    some ({ s with key := none, keyAllowed := false }.addSign .value 1)
  | none =>
    if s.inFlow || s.keyAllowed then
      let s := s.openBlock .blockMappingStart s.cursor.column s.count
      some ({ s with keyAllowed := !s.inFlow }.addSign .value 1)
    else none

/-- A token that may start a key and is followed by none. -/
def word? (s : Layout) (read : Layout → Option Layout) : Option Layout := do
  let s ← s.keepKey?
  read { s with keyAllowed := false }

/-- An anchor or an alias. -/
def anchor? (s : Layout) (token : String → Token) : Option Layout :=
  s.word? fun s => (anchorName? s.cursor).map fun r => s.add (token r.1) r.2

/-- A scalar in quotes; `read` starts behind the opening one. -/
def quoted? (s : Layout) (read : Gap → Nat → Nat → List Char → Option (List Char × Cursor)) :
    Option Layout :=
  s.word? fun s =>
    let inside := s.cursor.skip 1
    (read .none inside.line inside.column inside.rest).map fun r =>
      s.add (.scalar .quoted r.1) r.2

/-- A plain scalar. If the gap behind it goes over a line break, a key may start there. -/
def plain? (s : Layout) : Option Layout :=
  s.word? fun s =>
    (plain s.inFlow s.least .none s.cursor.line s.cursor.column s.cursor.rest).map fun r =>
      { s with keyAllowed := r.2.1.isAcross }.add (.scalar .plain r.1) r.2.2

/-- A block scalar. -/
def blockScalar? (s : Layout) (style : Style) : Option Layout := do
  let s ← s.dropKey?
  let (text, cursor) ← block? (style == .folded) s.least (s.cursor.skip 1)
  return { s with keyAllowed := true }.add (.scalar style text) cursor

/-- The next token. -/
def next? (s : Layout) : Option Layout :=
  let cs := s.cursor.rest
  if s.cursor.column = 0 ∧ cs.head? = some '%' then
    s.between? fun s => (directive? s.cursor).map fun r => s.add r.1 r.2
  else if s.cursor.column = 0 ∧ isMarkOf '-' cs then s.between? (·.addSign .documentStart 3)
  else if s.cursor.column = 0 ∧ isMarkOf '.' cs then s.between? (·.addSign .documentEnd 3)
  else match cs with
    | '[' :: _ => s.openFlow? .flowSequenceStart
    | '\x7b' :: _ => s.openFlow? .flowMappingStart
    | ']' :: _ => s.closeFlow? .flowSequenceEnd
    | '\x7d' :: _ => s.closeFlow? .flowMappingEnd
    | ',' :: _ => s.flowEntry?
    | '*' :: _ => s.anchor? .alias
    | '&' :: _ => s.anchor? .anchor
    | '!' :: _ => s.word? fun s => (tag? s.inFlow s.cursor).map fun r => s.add r.1 r.2
    | '\x27' :: _ => s.quoted? singleQuoted
    | '"' :: _ => s.quoted? doubleQuoted
    | c :: rest =>
      if c = '-' ∧ endsWord rest then s.blockEntry?
      else if c = '?' ∧ (s.inFlow ∨ endsWord rest) then s.explicitKey?
      else if c = ':' ∧ (s.inFlow ∨ endsWord rest) then s.value?
      else if c = '|' ∧ !s.inFlow then s.blockScalar? .literal
      else if c = '>' ∧ !s.inFlow then s.blockScalar? .folded
      else if startsPlain s.inFlow cs then s.plain?
      else none
    | [] => none

/-! ### Whole texts -/

/-- Goes to the next word, and ends what it ends: the keys it is too far from, and the blocks it
stands to the left of. -/
def toWord? (s : Layout) : Option Layout := do
  let (keyAllowed, cursor) :=
    Cursor.toWord s.inFlow false s.keyAllowed s.cursor.line s.cursor.column s.cursor.rest
  let s ← dropFarKey? { s with keyAllowed, cursor }
  return s.closeBlocks (· ≤ s.cursor.column)

/-- The tokens of a text that has been read to its end. -/
def finish? (s : Layout) : Option (List Token) :=
  (s.closeBlocks fun _ => false).dropKey?.map (·.tokens.reverse)

/-- The tokens of a text of which a part has been read. `fuel` bounds the number of those that are
still to come. -/
def read? (s : Layout) : Nat → Option (List Token)
  | 0 => none
  | fuel + 1 => do
    let s ← s.toWord?
    if s.cursor.rest = [] then s.finish?
    else (← s.next?).read? fuel

end Layout

/-- The tokens of a text. Each step takes one character off the text or more, so that the length of
the text is enough of fuel. -/
def tokens? (text : List Char) : Option (List Token) :=
  (Layout.start text).read? (text.length + 1)

end ArchFacts.Yaml
