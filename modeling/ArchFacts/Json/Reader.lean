import ArchFacts.Json.Node

/-!
# Reading JSON

`parse` gives the value of a text, or the first fault in it. Where a value is wanted everything in
it must have one: a string no half of a surrogate pair, a number a double, and arrays and objects
stand at most `deepest` levels inside one another. Where a value is passed over (`Node.skip`) only
its shape counts.
-/

namespace ArchFacts.Json

/-- How many arrays and objects may stand inside one another. -/
def deepest : Nat := 127

/-- A high surrogate: the first half of a character beyond U+FFFF. -/
def isHigh (n : Nat) : Bool := 0xD800 ≤ n && n < 0xDC00

/-- A low surrogate: the second half of a character beyond U+FFFF. -/
def isLow (n : Nat) : Bool := 0xDC00 ≤ n && n < 0xE000

/-- The character of a surrogate pair. -/
def combine (high low : Nat) : Char :=
  Char.ofNat (0x10000 + (high - 0xD800) * 0x400 + (low - 0xDC00))

/-- The characters of the pieces of a string. A low surrogate stands behind a high one, and a high
one before a low one; `cut` is the fault that the pieces end with. -/
def joinPieces (cut : Option Fault) : List Piece → Except Fault (List Char)
  | [] => match cut with
    | some f => .error f
    | none => .ok []
  | .char c :: rest => (joinPieces cut rest).map (c :: ·)
  | [.unit n] =>
    if isHigh n || isLow n then .error (cut.filter (fun _ => isHigh n) |>.getD .malformed)
    else (joinPieces cut []).map (Char.ofNat n :: ·)
  | .unit n :: .unit m :: rest =>
    if isHigh n then
      if isLow m then (joinPieces cut rest).map (combine n m :: ·) else .error .malformed
    else if isLow n then .error .malformed
    else (joinPieces cut (.unit m :: rest)).map (Char.ofNat n :: ·)
  | .unit n :: .char c :: rest =>
    if isHigh n || isLow n then .error .malformed
    else (joinPieces cut (.char c :: rest)).map (Char.ofNat n :: ·)

/-- The string that a quoted text stands for. -/
def Quoted.text (s : Quoted) : Except Fault String :=
  (joinPieces s.cut s.pieces).map String.ofList

/-- A string as it is written with no escapes. -/
def Quoted.ofString (s : String) : Quoted := ⟨s.toList.map .char, none⟩

/-- The fault at the end of an array or an object, if there is one. -/
def checkEnd (cut : Option Fault) : Except Fault Unit :=
  match cut with
  | some f => .error f
  | none => .ok ()

namespace Node

/-- The shape of a text and the tokens after it. -/
def ofText (text : List Char) : Node × List Token :=
  read .value [] (tokens text)

mutual

/-- The first fault in the shape of a value. -/
def skip : Node → Except Fault Unit
  | .string s => checkEnd s.cut
  | .cutNumber => .error .malformed
  | .array items cut => do
    skipItems items
    checkEnd cut
  | .object members cut => do
    skipMembers members
    checkEnd cut
  | .broken f => .error f
  | .null | .bool _ | .number _ | .tooLarge => .ok ()

/-- `skip`, item by item. -/
def skipItems : List Node → Except Fault Unit
  | [] => .ok ()
  | node :: rest => do
    node.skip
    skipItems rest

/-- `skip`, member by member. -/
def skipMembers : List (Quoted × Node) → Except Fault Unit
  | [] => .ok ()
  | (key, node) :: rest => do
    checkEnd key.cut
    node.skip
    skipMembers rest

end

mutual

/-- The value of a node, where `room` more arrays and objects may stand inside one another. -/
def value (room : Nat) : Node → Except Fault Value
  | .null => .ok .null
  | .bool b => .ok (.bool b)
  | .string s => s.text.map .string
  | .number (.int n) => .ok (.int n)
  | .number (.float x) => .ok (.float x)
  | .tooLarge => .error .malformed
  | .cutNumber => .error .ended
  | .broken f => .error f
  | .array items cut => match room with
    | 0 => .error .malformed
    | room + 1 => do
      let values ← valueItems room items
      checkEnd cut
      return .array values
  | .object members cut => match room with
    | 0 => .error .malformed
    | room + 1 => do
      let pairs ← valueMembers room members
      checkEnd cut
      return .ofPairs pairs

/-- The values of items. -/
def valueItems (room : Nat) : List Node → Except Fault (List Value)
  | [] => .ok []
  | node :: rest => do
    let v ← node.value room
    let values ← valueItems room rest
    return v :: values

/-- The keys and values of members, in the order of the text. -/
def valueMembers (room : Nat) : List (Quoted × Node) → Except Fault (List (String × Value))
  | [] => .ok []
  | (key, node) :: rest => do
    let name ← key.text
    let v ← node.value room
    let pairs ← valueMembers room rest
    return (name, v) :: pairs

end

end Node

mutual

/-- The shape that the text of a value has. -/
def Value.node : Value → Node
  | .null => .null
  | .bool b => .bool b
  | .int n => .number (.int n)
  | .float x => .number (.float x)
  | .string s => .string (.ofString s)
  | .array items => .array (Value.nodeItems items) none
  | .object fields => .object (Value.nodeFields fields) none

/-- The shapes of items. -/
def Value.nodeItems : List Value → List Node
  | [] => []
  | v :: rest => v.node :: Value.nodeItems rest

/-- The shapes of fields. -/
def Value.nodeFields : List (String × Value) → List (Quoted × Node)
  | [] => []
  | (key, v) :: rest => (.ofString key, v.node) :: Value.nodeFields rest

end

/-- Reads one value with `decode` and refuses anything after it. -/
def readWhole {α ε : Type} (ofFault : Fault → ε) (decode : Node → Except ε α) (text : List Char) :
    Except ε α := do
  let (node, rest) := Node.ofText text
  let result ← decode node
  if rest.isEmpty then return result else .error (ofFault .malformed)

/-- The value of a text. -/
def parse (text : List Char) : Except Fault Value :=
  readWhole id (Node.value deepest) text

end ArchFacts.Json
