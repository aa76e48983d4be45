import ArchFacts.Directory.Access
import ArchFacts.Records.Reader

/-!
# Failures

What reads or writes files and streams can fail; everything else always has an answer. A failure
names the file it is about.
-/

namespace ArchFacts

/-- Why reading or writing failed. -/
inductive Failure where
  | access (path : String) (fault : Directory.Fault)
  /-- A file of facts with a line that is none. -/
  | badRecord (path : String) (line : Nat) (cause : Json.DecodeError)
  | stream (error : Records.ReadError)
  /-- A file that is no configuration. -/
  | configuration (path : String)
  deriving DecidableEq, Repr

namespace Failure

/-- The text of a failure. -/
def message : Failure → String
  | access path fault => "I/O error on " ++ path ++ ": " ++ fault.message
  | badRecord path line cause =>
    "fact file " ++ path ++ ": " ++ (Records.ReadError.badRecord line cause).message
  | stream error => "JSONL error: " ++ error.message
  | configuration path => "configuration error: " ++ path

/-- The failure to read a file of records. -/
def ofFile (path : String) : Records.ReadError → Failure
  | .notText => access path .notText
  | .badRecord line cause => badRecord path line cause

end Failure

end ArchFacts
