import ArchFacts.Json.Reader
import ArchFacts.Json.Printer
import ArchFacts.Text.Digits
import ArchFacts.Text.Quoted

/-!
# Decoding records

A decoder takes the shape of a value to a value of its own type, from left to right, and stops at
the first fault, be it one of the text or one of the contents. A record can be written as an object,
its fields in any order, or as an array, its fields in the order of their declaration; fields that
are not known are passed over and known ones stand at most once.
-/

namespace ArchFacts.Json

/-- What a decoder found where it expected something else. -/
inductive Found where
  | null
  | bool (b : Bool)
  | int (n : Int)
  | float (x : Decimal.Binary64)
  | string (s : String)
  | sequence
  | map
  deriving DecidableEq, Repr

/-- Why a value was not decoded. -/
inductive DecodeError where
  | fault (f : Fault)
  | missingField (name : String)
  | duplicateField (name : String)
  | wrongType (found : Found) (expected : String)
  /-- A whole number outside the range of its type. -/
  | outOfRange (n : Int) (expected : String)
  | wrongLength (length : Nat) (expected : String)
  | unknownVariant (name : String) (known : List String)
  /-- An object with more or less than the one field that names a variant. -/
  | notOneVariant
  deriving DecidableEq, Repr

/-- The name that a message gives to what was found. -/
def Found.describe : Found → String
  | .null => "null"
  | .bool b => "boolean `" ++ String.ofList (Value.bool b).write ++ "`"
  | .int n => "integer `" ++ String.ofList (intText n) ++ "`"
  | .float x => "floating point `" ++ String.ofList x.write ++ "`"
  | .string s => "string " ++ Text.quoted s
  | .sequence => "sequence"
  | .map => "map"

/-- The kinds of a failure: a text that ends too early, one that breaks the grammar, and a
well-formed text with the wrong contents. -/
inductive Category where
  | eof
  | malformed
  | data
  deriving DecidableEq, Repr

namespace DecodeError

/-- Names in backticks, joined as a choice. -/
def choice : List String → String
  | [] => ""
  | [name] => "`" ++ name ++ "`"
  | [a, b] => "`" ++ a ++ "` or `" ++ b ++ "`"
  | a :: rest => "`" ++ a ++ "`, " ++ choice rest

/-- The text of a failure. The faults of a text have placeholders for theirs. -/
def message : DecodeError → String
  | .fault .ended => "<eof>"
  | .fault .malformed => "<syntax>"
  | .missingField name => "missing field `" ++ name ++ "`"
  | .duplicateField name => "duplicate field `" ++ name ++ "`"
  | .wrongType found expected => "invalid type: " ++ found.describe ++ ", expected " ++ expected
  | .outOfRange n expected =>
    "invalid value: " ++ (Found.int n).describe ++ ", expected " ++ expected
  | .wrongLength length expected =>
    "invalid length " ++ Text.digits length ++ ", expected " ++ expected
  | .unknownVariant name known =>
    "unknown variant `" ++ name ++ "`, expected " ++ choice known
  | .notOneVariant => "invalid value: map, expected map with a single key"

/-- The kind of a failure. -/
def category : DecodeError → Category
  | .fault .ended => .eof
  | .fault .malformed => .malformed
  | _ => .data

end DecodeError

/-- Where a shape comes from, a text or a finished value: an array with too many items is a fault of
the first and has the wrong length as the second. -/
inductive Origin where
  | text
  | value
  deriving DecidableEq, Repr

/-- The complaint about an array with `length` items that has too many. -/
def Origin.tooLong (origin : Origin) (length : Nat) : DecodeError :=
  match origin with
  | .text => .fault .malformed
  | .value => .wrongLength length "fewer elements in array"

namespace Node

variable {α : Type}

/-- Turns the fault of a text into a failure to decode it. -/
def lift (result : Except Fault α) : Except DecodeError α :=
  result.mapError .fault

/-- What a node is, for a complaint about it. A string or a number is read to its end first. -/
def found : Node → Except DecodeError Found
  | .null => .ok .null
  | .bool b => .ok (.bool b)
  | .string s => lift (s.text.map .string)
  | .number (.int n) => .ok (.int n)
  | .number (.float x) => .ok (.float x)
  | .tooLarge => .error (.fault .malformed)
  | .cutNumber => .error (.fault .ended)
  | .array _ _ => .ok .sequence
  | .object _ _ => .ok .map
  | .broken f => .error (.fault f)

/-- Complains about a node that is not what was expected. -/
def mismatch (expected : String) (node : Node) : Except DecodeError α := do
  let found ← node.found
  .error (.wrongType found expected)

/-- Decodes a string. -/
def decodeString : Node → Except DecodeError String
  | .string s => lift s.text
  | node => node.mismatch "a string"

/-- Decodes a whole number from 0 up to but not including `bound`. -/
def decodeUnsigned (bound : Nat) (expected : String) : Node → Except DecodeError Nat
  | .number (.int n) =>
    if 0 ≤ n ∧ n < bound then .ok n.toNat else .error (.outOfRange n expected)
  | node => node.mismatch expected

/-- Decodes what may be absent, which `null` says. -/
def decodeOption (decode : Node → Except DecodeError α) : Node → Except DecodeError (Option α)
  | .null => .ok none
  | node => (decode node).map some

/-- Decodes a list. -/
def decodeList (decode : Node → Except DecodeError α) : Node → Except DecodeError (List α)
  | .array items cut => do
    let decoded ← items.mapM decode
    lift (checkEnd cut)
    return decoded
  | node => node.mismatch "a sequence"

/-- Decodes a table of values, where `room` more arrays and objects may stand inside one another. -/
def decodeTable (room : Nat) : Node → Except DecodeError (Fields Value)
  | .object members cut => do
    let pairs ← lift (valueMembers room members)
    lift (checkEnd cut)
    return Fields.ofPairs pairs
  | node => node.mismatch "a map"

end Node

/-- A field of a record: how its value is decoded and put into the record. -/
structure RecordField (α : Type) where
  name : String
  required : Bool
  decode : Node → Except DecodeError (α → α)

namespace RecordField

variable {α β : Type}

/-- A field that sets something in the record to what `decode` gives. -/
def of (name : String) (decode : Node → Except DecodeError β) (set : β → α → α) : RecordField α :=
  ⟨name, false, fun node => (decode node).map set⟩

/-- The field, as one that must be there. -/
def need (field : RecordField α) : RecordField α := { field with required := true }

/-- Decodes the members of an object into a record, and gives the known names among them. -/
def decodeMembers (fields : List (RecordField α)) (seen : List String) (record : α) :
    List (Quoted × Node) → Except DecodeError (α × List String)
  | [] => .ok (record, seen)
  | (key, node) :: rest => do
    let name ← Node.lift key.text
    match fields.find? (·.name == name) with
    | some field =>
      if seen.contains name then .error (.duplicateField name)
      else do
        let set ← field.decode node
        decodeMembers fields (name :: seen) (set record) rest
    | none => do
      Node.lift node.skip
      decodeMembers fields seen record rest

/-- Decodes the items of an array into the fields of a record, as far as both go. -/
def decodeItems (record : α) : List (RecordField α) → List Node → Except DecodeError α
  | field :: fields, node :: nodes => do
    let set ← field.decode node
    decodeItems (set record) fields nodes
  | _, _ => .ok record

/-- Decodes a record called `title`, which is `record` in the fields that are left out. -/
def decodeRecord (origin : Origin) (title : String) (fields : List (RecordField α)) (record : α) :
    Node → Except DecodeError α
  | .object members cut => do
    let (record, seen) ← decodeMembers fields [] record members
    Node.lift (checkEnd cut)
    match fields.find? fun field => field.required && !seen.contains field.name with
    | some field => .error (.missingField field.name)
    | none => return record
  | .array items cut => do
    let record ← decodeItems record fields items
    if fields.length < items.length then .error (origin.tooLong items.length)
    else do
      Node.lift (checkEnd cut)
      if (fields.drop items.length).any (·.required) then
        .error (.wrongLength items.length
          (title ++ " with " ++ Text.digits fields.length ++ " elements"))
      else return record
  | node => node.mismatch title

end RecordField

/-- Decodes the name of a variant, or an object with that name alone and nothing in it. -/
def decodeVariant {α : Type} (variants : List (String × α)) : Node → Except DecodeError α
  | .string s => do
    let name ← Node.lift s.text
    pick name
  | .object [(key, node)] none => do
    let name ← Node.lift key.text
    let variant ← pick name
    match node with
    | .null => return variant
    | node => node.mismatch "unit"
  | .object _ _ => .error .notOneVariant
  | node => node.mismatch "string or map"
where
  /-- The variant of a name. -/
  pick (name : String) : Except DecodeError α :=
    match variants.lookup name with
    | some variant => .ok variant
    | none => .error (.unknownVariant name (variants.map (·.1)))

end ArchFacts.Json
