import ArchFacts.Text.Utf8

/-!
# Writing records

A record is written as its text and a line feed. A writer keeps what it has written and how many
records that was.
-/

namespace ArchFacts.Records

/-- What has been written so far. -/
structure Writer where
  text : List Char
  records : Nat
  deriving DecidableEq, Repr

namespace Writer

/-- Nothing written yet. -/
def empty : Writer := ⟨[], 0⟩

variable {α : Type} (render : α → List Char)

/-- Writes a record. -/
def write (w : Writer) (record : α) : Writer :=
  ⟨w.text ++ (render record ++ ['\n']), w.records + 1⟩

/-- Writes records, one after the other. -/
def writeAll (w : Writer) (records : List α) : Writer :=
  records.foldl (write render) w

end Writer

/-- The text of a list of records. -/
def write {α : Type} (render : α → List Char) (records : List α) : List Char :=
  records.flatMap fun record => render record ++ ['\n']

/-- The bytes of a list of records. -/
def writeBytes {α : Type} (render : α → List Char) (records : List α) : List UInt8 :=
  Text.Utf8.encode (write render records)

end ArchFacts.Records
