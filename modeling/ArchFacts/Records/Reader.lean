import ArchFacts.Json.Decode
import ArchFacts.Text.Blank
import ArchFacts.Text.Utf8

/-!
# Reading records

A stream of records holds one JSON value a line. A line ends at a line feed, the last one also at
the end of the stream. Lines are counted from 1; a line that is blank counts and holds no record.
`Reader.next` goes to the next record and `Reader.all` through all of them up to the first fault.
A line that is not text is reported without being counted.
-/

namespace ArchFacts.Records

open Json

/-- Why a record was not read. -/
inductive ReadError where
  /-- A line is not well-formed UTF-8. -/
  | notText
  | badRecord (line : Nat) (cause : DecodeError)
  deriving DecidableEq, Repr

/-- The text of a reading error. -/
def ReadError.message : ReadError → String
  | .notText => "IO error: <invalid utf-8>"
  | .badRecord line cause =>
    "line " ++ Text.digits line ++ ": " ++ cause.message

/-- The lines of a stream, without the line feeds that end them. -/
def splitLines : List UInt8 → List (List UInt8)
  | [] => []
  | b :: rest =>
    if b = 10 then [] :: splitLines rest
    else match splitLines rest with
      | line :: others => (b :: line) :: others
      | [] => [[b]]

/-- What a line holds. -/
inductive Line where
  | notText
  | blank
  | record (text : List Char)
  deriving DecidableEq, Repr

/-- Looks at a line: its record is its text without the blanks around it. -/
def Line.ofBytes (bytes : List UInt8) : Line :=
  match Text.Utf8.decode bytes with
  | none => .notText
  | some cs => match Text.trim cs with
    | [] => .blank
    | text => .record text

/-- A point in a stream: the lines to come, and how many have been counted. -/
structure Reader where
  pending : List (List UInt8)
  lineNumber : Nat
  deriving DecidableEq, Repr

namespace Reader

/-- The beginning of a stream. -/
def ofBytes (bytes : List UInt8) : Reader := ⟨splitLines bytes, 0⟩

variable {α : Type} (decode : List Char → Except DecodeError α)

/-- The next record from a point on, if there is one, and the point after it. -/
def nextFrom (lineNumber : Nat) : List (List UInt8) → Except ReadError (Option α) × Reader
  | [] => (.ok none, ⟨[], lineNumber⟩)
  | line :: pending => match Line.ofBytes line with
    | .notText => (.error .notText, ⟨pending, lineNumber⟩)
    | .blank => nextFrom (lineNumber + 1) pending
    | .record text =>
      ((decode text).map some |>.mapError (.badRecord (lineNumber + 1)), ⟨pending, lineNumber + 1⟩)

/-- The next record, if there is one, and the point after it. -/
def next (r : Reader) : Except ReadError (Option α) × Reader :=
  nextFrom decode r.lineNumber r.pending

/-- All records from a point on, or the first fault, and the number of lines counted by then. -/
def allFrom (lineNumber : Nat) : List (List UInt8) → Except ReadError (List α) × Nat
  | [] => (.ok [], lineNumber)
  | line :: pending => match Line.ofBytes line with
    | .notText => (.error .notText, lineNumber)
    | .blank => allFrom (lineNumber + 1) pending
    | .record text => match decode text with
      | .error cause => (.error (.badRecord (lineNumber + 1) cause), lineNumber + 1)
      | .ok record =>
        let (others, count) := allFrom (lineNumber + 1) pending
        (others.map (record :: ·), count)

/-- All records that are still to come, or the first fault, and the number of lines counted by
then. -/
def all (r : Reader) : Except ReadError (List α) × Nat :=
  allFrom decode r.lineNumber r.pending

end Reader

/-- All records of a stream, or the first fault in it. -/
def read {α : Type} (decode : List Char → Except DecodeError α) (bytes : List UInt8) :
    Except ReadError (List α) :=
  ((Reader.ofBytes bytes).all decode).1

end ArchFacts.Records
