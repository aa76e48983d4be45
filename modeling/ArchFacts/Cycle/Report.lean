import ArchFacts.Cycle.Finding

/-!
# Reports of cycles

The findings as JSON values. A file that is not known is left out.
-/

namespace ArchFacts.Cycle

open Json

/-- A piece of evidence, as a value. -/
def Evidence.value (e : Evidence) : Value :=
  .ofPairs <|
    [("module", .string e.moduleName), ("line", .ofNat e.line.toNat), ("detail", .string e.detail)]
    ++ (if e.file = "" then [] else [("file", .string e.file)])

/-- A finding, as a value. -/
def Finding.value (f : Finding) : Value :=
  .ofPairs
    [("title", .string f.title),
     ("description", .string f.description),
     ("modules", .ofTexts f.modules),
     ("path", .ofTexts f.path),
     ("evidence", .array (f.evidence.map Evidence.value)),
     ("confidence", .float f.confidence)]

end ArchFacts.Cycle
