import ArchFacts.Json.Token

/-!
# The shape of a JSON text

A `Node` is a value as it is written: the fields of an object in the order of the text, repeated
names included, and strings as pieces. A text that breaks off or breaks the grammar has a shape
too, with the fault at its end, so that a decoder which goes through a node from left to right meets
its own complaints and the fault of the text in the order in which they stand.

`Node.ofTokens` builds the shape in one pass, with the arrays and objects that are still open on a
stack of `Frame`s.
-/

namespace ArchFacts.Json

/-- A value as it is written. `cut` is the fault that an array or an object ends with instead of its
closing bracket. -/
inductive Node where
  | null
  | bool (b : Bool)
  | string (s : Quoted)
  | number (n : Number)
  | tooLarge
  | cutNumber
  | array (items : List Node) (cut : Option Fault)
  | object (members : List (Quoted × Node)) (cut : Option Fault)
  /-- Nothing that is a value. -/
  | broken (f : Fault)
  deriving Repr, Inhabited

/-- An array or object that is still open, what it has so far in reverse. -/
inductive Frame where
  | array (items : List Node)
  | object (members : List (Quoted × Node))
  /-- An object that waits for the value of a member. -/
  | member (members : List (Quoted × Node)) (key : Quoted)
  deriving Repr

/-- What comes next. -/
inductive Awaited where
  | value
  /-- The first item of an array, or its end. -/
  | item
  /-- The first key of an object, or its end. -/
  | firstKey
  | key
  | colon (key : Quoted)
  /-- What follows a complete value. -/
  | separator (done : Node)
  deriving Repr

namespace Node

/-- Puts a value that nothing can follow into the open frames around it. -/
def close : List Frame → Node → Node
  | [], node => node
  | .array items :: stack, node => close stack (.array (node :: items).reverse none)
  | .object members :: stack, _ => close stack (.object members.reverse none)
  | .member members key :: stack, node =>
    close stack (.object ((key, node) :: members).reverse none)

/-- The fault that a token makes where no token of its kind can stand. -/
def faultOf : Token → Fault
  | .bad f => f
  | _ => .malformed

/-- The value that a token is, unless it opens an array or an object. -/
def ofToken : Token → Node
  | .null => .null
  | .bool b => .bool b
  | .string s => .string s
  | .number n => .number n
  | .tooLarge => .tooLarge
  | .cutNumber => .cutNumber
  | token => .broken (faultOf token)

/-- Whether a token is a value all by itself. -/
def isScalar : Token → Bool
  | .null | .bool _ | .number _ | .tooLarge => true
  | .string s => s.cut.isNone
  | _ => false

/-- Reads on from a point of the text: what is awaited there, the open frames, and the tokens to
come. The result is the outermost value and the tokens after it. -/
def read : Awaited → List Frame → List Token → Node × List Token
  | .separator node, [], tokens => (node, tokens)
  | .value, stack, [] => (close stack (.broken .ended), [])
  | .value, stack, .openArray :: tokens => read .item (.array [] :: stack) tokens
  | .value, stack, .openObject :: tokens => read .firstKey (.object [] :: stack) tokens
  | .value, stack, token :: tokens =>
    if isScalar token then read (.separator (ofToken token)) stack tokens
    else (close stack (ofToken token), tokens)
  | .item, .array items :: stack, [] => (close stack (.array items.reverse (some .ended)), [])
  | .item, .array items :: stack, .closeArray :: tokens =>
    read (.separator (.array items.reverse none)) stack tokens
  | .item, stack, .openArray :: tokens => read .item (.array [] :: stack) tokens
  | .item, stack, .openObject :: tokens => read .firstKey (.object [] :: stack) tokens
  | .item, stack, token :: tokens =>
    if isScalar token then read (.separator (ofToken token)) stack tokens
    else (close stack (ofToken token), tokens)
  | .separator node, .array items :: stack, [] =>
    (close stack (.array (node :: items).reverse (some .ended)), [])
  | .separator node, .array items :: stack, .comma :: tokens =>
    read .value (.array (node :: items) :: stack) tokens
  | .separator node, .array items :: stack, .closeArray :: tokens =>
    read (.separator (.array (node :: items).reverse none)) stack tokens
  | .separator node, .array items :: stack, _ :: tokens =>
    (close stack (.array (node :: items).reverse (some .malformed)), tokens)
  | .separator node, .member members key :: stack, [] =>
    (close stack (.object ((key, node) :: members).reverse (some .ended)), [])
  | .separator node, .member members key :: stack, .comma :: tokens =>
    read .key (.object ((key, node) :: members) :: stack) tokens
  | .separator node, .member members key :: stack, .closeObject :: tokens =>
    read (.separator (.object ((key, node) :: members).reverse none)) stack tokens
  | .separator node, .member members key :: stack, _ :: tokens =>
    (close stack (.object ((key, node) :: members).reverse (some .malformed)), tokens)
  | .firstKey, .object members :: stack, .closeObject :: tokens =>
    read (.separator (.object members.reverse none)) stack tokens
  | .firstKey, stack, .string key :: tokens | .key, stack, .string key :: tokens =>
    read (.colon key) stack tokens
  | .firstKey, .object members :: stack, [] | .key, .object members :: stack, [] =>
    (close stack (.object members.reverse (some .ended)), [])
  | .firstKey, .object members :: stack, _ :: tokens
  | .key, .object members :: stack, _ :: tokens =>
    (close stack (.object members.reverse (some .malformed)), tokens)
  | .colon key, .object members :: stack, .colon :: tokens =>
    read .value (.member members key :: stack) tokens
  | .colon key, .object members :: stack, [] =>
    (close stack (.object ((key, .broken .ended) :: members).reverse none), [])
  | .colon key, .object members :: stack, _ :: tokens =>
    (close stack (.object ((key, .broken .malformed) :: members).reverse none), tokens)
  | _, stack, tokens => (close stack (.broken .malformed), tokens)

end Node

end ArchFacts.Json
