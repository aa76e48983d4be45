import ArchFacts.Decimal.Shortest
import ArchFacts.Json.Value

/-!
# Writing JSON

`Value.write` gives the compact text of a value, without any space, and `Value.writeIndented` the
text for reading, one item or field a line. In strings the quote, the backslash and the characters
below U+0020 are escaped and all others stand for themselves.
-/

namespace ArchFacts.Json

/-- The lower-case hexadecimal digit of a number below 16. -/
def hexDigit (n : Nat) : Char := (Nat.digitChar n)

/-- A character as it stands inside a JSON string. -/
def escape (c : Char) : List Char :=
  match c with
  | '"' => ['\\', '"']
  | '\\' => ['\\', '\\']
  | '\n' => ['\\', 'n']
  | '\r' => ['\\', 'r']
  | '\t' => ['\\', 't']
  | '\x08' => ['\\', 'b']
  | '\x0c' => ['\\', 'f']
  | c =>
    if c.toNat < 0x20 then
      ['\\', 'u', '0', '0', hexDigit (c.toNat / 16), hexDigit (c.toNat % 16)]
    else [c]

/-- A string in quotes. -/
def quote (s : String) : List Char :=
  '"' :: (s.toList.flatMap escape ++ ['"'])

/-- The text of an integer. -/
def intText (n : Int) : List Char :=
  if n < 0 then '-' :: Nat.toDigits 10 n.natAbs else Nat.toDigits 10 n.natAbs

/-- Texts with a comma between any two. -/
def commaSeparated : List (List Char) → List Char
  | [] => []
  | [text] => text
  | text :: rest => text ++ ',' :: commaSeparated rest

/-- An object with these fields, given by name and compact text, in this order. -/
def writeObject (fields : List (String × List Char)) : List Char :=
  '\x7b' :: (commaSeparated (fields.map fun field => quote field.1 ++ ':' :: field.2) ++ ['\x7d'])

/-- An array of these items, given by compact text. -/
def writeArray (items : List (List Char)) : List Char :=
  '[' :: (commaSeparated items ++ [']'])

/-- A line break and the indentation of a level. -/
def lineBreak (level : Nat) : List Char :=
  '\n' :: List.replicate (2 * level) ' '

namespace Value

mutual

/-- The compact text of a value. -/
def write : Value → List Char
  | .null => ['n', 'u', 'l', 'l']
  | .bool true => ['t', 'r', 'u', 'e']
  | .bool false => ['f', 'a', 'l', 's', 'e']
  | .int n => intText n
  | .float x => x.write
  | .string s => quote s
  | .array items => writeArray (writeItems items)
  | .object fields => writeObject (writeFields fields)

/-- The compact text of every item. -/
def writeItems : List Value → List (List Char)
  | [] => []
  | v :: rest => v.write :: writeItems rest

/-- Every field with the compact text of what it holds. -/
def writeFields : List (String × Value) → List (String × List Char)
  | [] => []
  | (key, v) :: rest => (key, v.write) :: writeFields rest

end

mutual

/-- The text of a value that begins at an indentation of `level`: items and fields stand one level
deeper on lines of their own, and an empty array or object stays closed. -/
def writeIndented (level : Nat) : Value → List Char
  | .array [] => ['[', ']']
  | .array (v :: rest) =>
    '[' :: (lineBreak (level + 1) ++ v.writeIndented (level + 1) ++ writeIndentedItems level rest)
  | .object [] => ['\x7b', '\x7d']
  | .object ((key, v) :: rest) =>
    '\x7b' :: (lineBreak (level + 1) ++ quote key ++ [':', ' '] ++ v.writeIndented (level + 1)
      ++ writeIndentedFields level rest)
  | .null => write .null
  | .bool b => write (.bool b)
  | .int n => write (.int n)
  | .float x => write (.float x)
  | .string s => write (.string s)

/-- The items after the first one, and the end of the array. -/
def writeIndentedItems (level : Nat) : List Value → List Char
  | [] => lineBreak level ++ [']']
  | v :: rest =>
    ',' :: (lineBreak (level + 1) ++ v.writeIndented (level + 1) ++ writeIndentedItems level rest)

/-- The fields after the first one, and the end of the object. -/
def writeIndentedFields (level : Nat) : List (String × Value) → List Char
  | [] => lineBreak level ++ ['\x7d']
  | (key, v) :: rest =>
    ',' :: (lineBreak (level + 1) ++ quote key ++ [':', ' '] ++ v.writeIndented (level + 1)
      ++ writeIndentedFields level rest)

end

/-- The compact text of a value, as a string. -/
def text (v : Value) : String := String.ofList v.write

end Value

end ArchFacts.Json
