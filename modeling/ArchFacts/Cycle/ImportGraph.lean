import ArchFacts.Cycle.Target
import ArchFacts.DirectedGraph
import ArchFacts.Fact.Basic
import ArchFacts.FirstSeen

/-!
# The import graph of the modules

The nodes are the names of the modules. A module imports what its own relations of the kinds
`imports` and `depends_on` name, and what the dependency facts of files in its directory import, as
far as the classifier takes those targets for internal. Only edges between modules count, each once.
-/

namespace ArchFacts.Cycle

/-- The import graph of some facts. -/
structure ImportGraph where
  /-- The first fact of every module, in order. -/
  modules : List Fact
  /-- Which module imports which, in the order in which that was found. -/
  imports : List (String × String)
  deriving Repr

namespace ImportGraph

/-- Whether a fact is a module with a name. -/
def isModule (f : Fact) : Bool := f.kind == .codeModule && f.name != ""

/-- The first fact of every module, in order. -/
def declared (facts : List Fact) : List Fact :=
  (firstSeen ((facts.filter isModule).map (·.name))).filterMap fun name =>
    facts.find? fun f => isModule f && f.name == name

/-- The imports that a fact tells of, whether or not both ends are modules. -/
def importsOf (internal : Classifier) (f : Fact) : List (String × String) :=
  if f.kind = .codeModule then
    (f.relations.filter fun r => r.kind = .imports ∨ r.kind = .dependsOn).map fun r =>
      (f.name, r.target)
  else if f.kind = .dependency then
    let source := SlashPath.containingDir f.file
    (f.relations.filter fun r => r.kind = .imports ∧ internal r.target).filterMap fun r =>
      (resolve source r.target).map fun target => (source, target)
  else []

/-- The import graph of some facts. -/
def build (facts : List Fact) (internal : Classifier) : ImportGraph :=
  let modules := declared facts
  let names := modules.map (·.name)
  let found := facts.flatMap (importsOf internal)
  { modules
    imports := firstSeen (found.filter fun e => names.contains e.1 && names.contains e.2) }

/-- The names of the modules, in order. -/
def names (g : ImportGraph) : List String := g.modules.map (·.name)

/-- The graph of the names. -/
def toDirected (g : ImportGraph) : DirectedGraph := .ofLabels g.names g.imports

/-- The modules that one imports, in the order in which that was found. -/
def importedBy (g : ImportGraph) (name : String) : List String :=
  (g.imports.filter (·.1 == name)).map (·.2)

end ImportGraph

end ArchFacts.Cycle
