import ArchFacts.Yaml.Layout
import ArchFacts.Yaml.Node

/-!
# YAML documents

A text holds one document: directives and a mark that starts it, both of which can be left out, a
node, and a mark that ends it, which can be left out too. `Node.ofText?` reads it.

The tokens of a node are read from left to right. Anchors get their numbers where they stand, each
the number of names that have been anchored before it, and an alias stands for the number that its
name had last.
-/

namespace ArchFacts.Yaml

/-- What is left of the tokens of a document, and the names that have been anchored. -/
structure Reading where
  tokens : List Token
  /-- The handles of tags, and the starts of the tags that they stand for. -/
  handles : List (String × Tag) := []
  /-- The names of anchors, with the numbers that they had last. -/
  anchors : List (String × Nat) := []

/-- Something that is read off the tokens of a document. -/
abbrev Read (α : Type) := StateT Reading Option α

namespace Read

/-- The next token, which stays. -/
def peek : Read (Option Token) := do return (← get).tokens.head?

/-- Takes the next token. -/
def drop : Read Unit := modify fun s => { s with tokens := s.tokens.tail }

/-- Takes the next token if it is a given one, and says whether it is. -/
def accept (token : Token) : Read Bool := do
  if (← peek) == some token then
    drop
    return true
  else return false

/-- Takes the next token, which has to be a given one. -/
def expect (token : Token) : Read Unit := do
  if !(← accept token) then failure

/-- Whether the next token is one of these, or there is none. -/
def isAt (tokens : List Token) : Read Bool := do
  return (← peek).all tokens.contains

/-! ### Properties -/

/-- The anchor that may stand here. -/
def anchor : Read (Option Nat) := do
  match ← peek with
  | some (.anchor name) =>
    drop
    let s ← get
    let number := s.anchors.length
    set { s with anchors := (name, number) :: s.anchors.filter (·.1 != name) }
    return some number
  | _ => return none

/-- The tag that may stand here. Its handle has to be known. -/
def tag : Read (Option Tag) := do
  match ← peek with
  | some (.tag handle rest) =>
    drop
    if handle = "" then return some rest
    let some start := (← get).handles.lookup handle | failure
    return some (start ++ rest)
  | _ => return none

/-- The properties that may stand here, in either order. -/
def properties : Read Properties := do
  match ← anchor with
  | some number => return ⟨some number, ← tag⟩
  | none =>
    let tag ← tag
    return ⟨← anchor, tag⟩

/-! ### Nodes

`fuel` bounds the number of steps.
-/

mutual

/-- The node that stands here. A block can stand only where `block` says so, and a sequence without
an indentation of its own only where `indentless` does. A node with properties can be left out. -/
def node (block indentless : Bool) : Nat → Read Node
  | 0 => failure
  | fuel + 1 => do
    match ← peek with
    | some (.alias name) =>
      drop
      let some number := (← get).anchors.lookup name | failure
      return .alias number
    | _ =>
      let p ← properties
      match ← peek with
      | some .blockEntry =>
        if indentless then return .sequence p (← indentlessItems fuel)
        else leftOut p
      | some (.scalar style text) =>
        drop
        return .scalar p style (String.ofList text)
      | some .flowSequenceStart =>
        drop
        return .sequence p (← flowItems true fuel)
      | some .flowMappingStart =>
        drop
        return .mapping p (← flowEntries true fuel)
      | some .blockSequenceStart =>
        if block then
          drop
          return .sequence p (← blockItems fuel)
        else leftOut p
      | some .blockMappingStart =>
        if block then
          drop
          return .mapping p (← blockEntries fuel)
        else leftOut p
      | _ => leftOut p
where
  /-- The node that is left out behind its properties. -/
  leftOut (p : Properties) : Read Node :=
    if p = {} then failure else return .scalar p .plain ""

/-- The node that stands here, or the one that is left out before one of some tokens. -/
def nodeUnless (ends : List Token) (block indentless : Bool) : Nat → Read Node
  | 0 => failure
  | fuel + 1 => do
    if (← peek).any ends.contains then return .missing
    else node block indentless fuel

/-- The items of a sequence in a block, up to its end. -/
def blockItems : Nat → Read (List Node)
  | 0 => failure
  | fuel + 1 => do
    if ← accept .blockEntry then
      let item ← nodeUnless [.blockEntry, .blockEnd] true false fuel
      return item :: (← blockItems fuel)
    else
      expect .blockEnd
      return []

/-- The items of a sequence whose dashes stand below the key that holds it. -/
def indentlessItems : Nat → Read (List Node)
  | 0 => failure
  | fuel + 1 => do
    if ← accept .blockEntry then
      let item ← nodeUnless [.blockEntry, .key, .value, .blockEnd] true false fuel
      return item :: (← indentlessItems fuel)
    else return []

/-- The entries of a mapping in a block, up to its end. -/
def blockEntries : Nat → Read (List (Node × Node))
  | 0 => failure
  | fuel + 1 => do
    if ← accept .key then
      let key ← nodeUnless [.key, .value, .blockEnd] true true fuel
      let value ←
        if ← accept .value then nodeUnless [.key, .value, .blockEnd] true true fuel
        else pure Node.missing
      return (key, value) :: (← blockEntries fuel)
    else
      expect .blockEnd
      return []

/-- The items of a sequence in brackets, up to its end; all but the first stand behind commas. An
item can be a single key with its value. -/
def flowItems (first : Bool) : Nat → Read (List Node)
  | 0 => failure
  | fuel + 1 => do
    if ← accept .flowSequenceEnd then return []
    if !first then expect .flowEntry
    if ← accept .flowSequenceEnd then return []
    let item ←
      if ← accept .key then
        let key ← pairKey fuel
        let value ←
          if ← accept .value then nodeUnless [.flowEntry, .flowSequenceEnd] false false fuel
          else pure Node.missing
        pure (Node.mapping {} [(key, value)])
      else node false false fuel
    return item :: (← flowItems false fuel)

/-- The key of an item. The sign before which it is left out is taken as well. -/
def pairKey : Nat → Read Node
  | 0 => failure
  | fuel + 1 => do
    if (← peek).any [Token.value, .flowEntry, .flowSequenceEnd].contains then
      drop
      return .missing
    else node false false fuel

/-- The entries of a mapping in braces, up to its end; all but the first stand behind commas. -/
def flowEntries (first : Bool) : Nat → Read (List (Node × Node))
  | 0 => failure
  | fuel + 1 => do
    if ← accept .flowMappingEnd then return []
    if !first then expect .flowEntry
    if ← accept .flowMappingEnd then return []
    let entry ←
      if ← accept .key then
        let key ← nodeUnless [.value, .flowEntry, .flowMappingEnd] false false fuel
        let value ←
          if ← accept .value then nodeUnless [.flowEntry, .flowMappingEnd] false false fuel
          else pure Node.missing
        pure (key, value)
      else pure (← node false false fuel, Node.missing)
    return entry :: (← flowEntries false fuel)

end

/-! ### Documents -/

/-- The handles that are known in every document. -/
def standardHandles : List (String × Tag) :=
  [("!", [33]), ("!!", "tag:yaml.org,2002:".toList.map fun c => .ofNat c.toNat)]

/-- The directives that may stand here, `versioned` if one of them has stated a version. -/
def directives (versioned : Bool) : Nat → Read Unit
  | 0 => failure
  | fuel + 1 => do
    match ← peek with
    | some (.version major minor) =>
      drop
      if versioned ∨ major ≠ 1 ∨ (minor ≠ 1 ∧ minor ≠ 2) then failure
      directives true fuel
    | some (.tagHandle handle start) =>
      drop
      let s ← get
      if (s.handles.lookup handle).isSome then failure
      set { s with handles := (handle, start) :: s.handles }
      directives versioned fuel
    | _ => return

/-- Whether a token starts a document that is not left to start by itself. -/
def startsDocument : Token → Bool
  | .version _ _ => true
  | .tagHandle _ _ => true
  | .documentStart => true
  | _ => false

/-- The node of a document. -/
def document (fuel : Nat) : Read Node := do
  let first ← peek
  directives false fuel
  modify fun s => { s with handles := s.handles ++ standardHandles }
  if first.all startsDocument then
    expect .documentStart
    let next ← peek
    if next.all fun token => startsDocument token || token == .documentEnd then return .missing
  node true false fuel

/-- The node of the only document there is. An empty text holds a value that is left out. -/
def only (fuel : Nat) : Read Node := do
  if (← peek).isNone then return .missing
  let node ← document fuel
  if (← get).tokens.all (· == .documentEnd) then return node else failure

end Read

/-- The node that a text holds. -/
def Node.ofText? (text : List Char) : Option Node := do
  let cs := unifyBreaks text
  if !cs.all isAllowed then none
  let tokens ← tokens? cs
  let (node, _) ← (Read.only (2 * tokens.length + 2)).run { tokens }
  return node

end ArchFacts.Yaml
