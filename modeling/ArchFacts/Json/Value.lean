import ArchFacts.Decimal.Binary64
import ArchFacts.Json.Fields

/-!
# JSON values

A number is an integer or a double, and the two never equal each other. Objects hold their fields
in the order of their names, so that equal objects are equal lists.
-/

namespace ArchFacts.Json

/-- A JSON value. -/
inductive Value where
  | null
  | bool (b : Bool)
  | int (n : Int)
  | float (x : Decimal.Binary64)
  | string (s : String)
  | array (items : List Value)
  | object (fields : List (String × Value))
  deriving Repr, Inhabited

namespace Value

/-- A natural number. -/
def ofNat (n : Nat) : Value := .int n

/-- A list of texts. -/
def ofTexts (texts : List String) : Value := .array (texts.map .string)

/-- An object with these fields, in any order; the last one of a name stays. -/
def ofPairs (pairs : List (String × Value)) : Value :=
  .object (Fields.ofPairs pairs)

mutual

/-- Whether two values are the same: doubles as numbers, so that the two zeros are, and everything
else exactly. -/
def equal : Value → Value → Bool
  | .null, .null => true
  | .bool a, .bool b => a == b
  | .int a, .int b => a == b
  | .float a, .float b => a.equal b
  | .string a, .string b => a == b
  | .array a, .array b => equalItems a b
  | .object a, .object b => equalFields a b
  | _, _ => false

/-- `equal`, item by item. -/
def equalItems : List Value → List Value → Bool
  | [], [] => true
  | a :: as, b :: bs => a.equal b && equalItems as bs
  | _, _ => false

/-- `equal`, field by field. -/
def equalFields : List (String × Value) → List (String × Value) → Bool
  | [], [] => true
  | (k, a) :: as, (l, b) :: bs => k == l && a.equal b && equalFields as bs
  | _, _ => false

end

mutual

/-- How many arrays and objects stand inside one another, the outermost counted. -/
def depth : Value → Nat
  | .array items => depthItems items + 1
  | .object fields => depthFields fields + 1
  | _ => 0

/-- The greatest depth among items. -/
def depthItems : List Value → Nat
  | [] => 0
  | v :: rest => max v.depth (depthItems rest)

/-- The greatest depth among fields. -/
def depthFields : List (String × Value) → Nat
  | [] => 0
  | (_, v) :: rest => max v.depth (depthFields rest)

end

mutual

/-- A value as a text can hold it: every integer fits 64 bits with or without a sign, and the fields
of every object are in order. -/
def Proper : Value → Prop
  | .int n => -UInt64.size ≤ 2 * n ∧ n < UInt64.size
  | .array items => ProperItems items
  | .object fields => Fields.Ordered fields ∧ ProperFields fields
  | _ => True

/-- `Proper`, for every item. -/
def ProperItems : List Value → Prop
  | [] => True
  | v :: rest => v.Proper ∧ ProperItems rest

/-- `Proper`, for every field. -/
def ProperFields : List (String × Value) → Prop
  | [] => True
  | (_, v) :: rest => v.Proper ∧ ProperFields rest

end

mutual

/-- A value without a double in it. -/
def Whole : Value → Prop
  | .float _ => False
  | .array items => WholeItems items
  | .object fields => WholeFields fields
  | _ => True

/-- `Whole`, for every item. -/
def WholeItems : List Value → Prop
  | [] => True
  | v :: rest => v.Whole ∧ WholeItems rest

/-- `Whole`, for every field. -/
def WholeFields : List (String × Value) → Prop
  | [] => True
  | (_, v) :: rest => v.Whole ∧ WholeFields rest

end

end Value

end ArchFacts.Json
