import ArchFacts.Cycle.Components
import ArchFacts.Cycle.ImportGraph
import ArchFacts.Json.Value
import ArchFacts.Text.Digits

/-!
# Import cycles

Modules that import each other in a loop are a strongly connected component of the import graph with
more than one member. Each is reported with its members, the path through them and back to the
first, and for every member where it is declared and which other members it imports. A module that
imports itself is no cycle.
-/

namespace ArchFacts.Cycle

/-- Where a member of a cycle is declared and what it imports. -/
structure Evidence where
  moduleName : String
  file : String
  line : UInt32
  detail : String
  deriving DecidableEq, Repr

/-- A cycle of imports. -/
structure Finding where
  title : String
  description : String
  modules : List String
  /-- The members and the first of them again. -/
  path : List String
  evidence : List Evidence
  confidence : Decimal.Binary64
  deriving DecidableEq, Repr

namespace ImportGraph

/-- The other members of a cycle that a module imports. -/
def importedWithin (g : ImportGraph) (members : List String) (name : String) : List String :=
  (g.importedBy name).filter fun other => other != name && members.contains other

/-- The evidence for a member of a cycle. -/
def evidence (g : ImportGraph) (members : List String) (name : String) : Evidence :=
  let detail := "imports " ++ ", ".intercalate (g.importedWithin members name)
  match g.modules.find? (·.name == name) with
  | some f => ⟨name, f.file, f.line, detail⟩
  | none => ⟨name, "", 0, detail⟩

/-- The report of a cycle. -/
def finding (g : ImportGraph) (members : List String) : Finding :=
  let path := members ++ members.take 1
  { title :=
      "Import cycle between " ++ Text.digits members.length ++ " modules"
    description := "Modules import each other in a loop: " ++ " -> ".intercalate path
    modules := members
    path
    evidence := members.map (g.evidence members)
    confidence := .one }

/-- The cycles of an import graph. -/
def findings (g : ImportGraph) : List Finding :=
  ((components g.toDirected).filter (1 < ·.length)).map g.finding

end ImportGraph

/-- The import cycles among the modules of some facts. -/
def detect (facts : List Fact) (internal : Classifier) : List Finding :=
  (ImportGraph.build facts internal).findings

end ArchFacts.Cycle
