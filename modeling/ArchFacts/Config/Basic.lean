import ArchFacts.Directory.Path
import ArchFacts.Graph.Impact
import ArchFacts.Graph.Path

/-!
# Configuration

The configuration names the file of facts and the ceilings of the graph searches that are used where
a command asks for none. A ceiling of 0 leaves it to the search itself.
-/

namespace ArchFacts

/-- The ceilings of a search. -/
structure Ceilings where
  maxDepth : UInt64 := 0
  maxNodes : UInt64 := 0
  deriving DecidableEq, Repr

/-- The ceilings of the searches. A search for a path has no use for a ceiling of nodes. -/
structure Limits where
  traverse : Ceilings := {}
  path : Ceilings := {}
  impact : Ceilings := {}
  deriving DecidableEq, Repr

/-- A configuration. -/
structure Config where
  dataFile : String
  limits : Limits
  deriving DecidableEq, Repr

namespace Config

/-- The configuration where there is none: the searches have the ceilings that they choose
themselves. -/
def standard : Config where
  dataFile := ".factgraph/facts.jsonl"
  limits :=
    { traverse :=
        ⟨.ofNat TraversalOptions.defaultDepth, .ofNat TraversalOptions.defaultNodes⟩
      path := ⟨.ofNat Graph.defaultPathDepth, 0⟩
      impact := ⟨.ofNat ImpactOptions.defaultDepth, .ofNat ImpactOptions.defaultNodes⟩ }

/-- Whether two configurations have the same limits and the same data file, whose path can be written
in several ways. -/
def same (first second : Config) : Bool :=
  Directory.Path.same first.dataFile second.dataFile && first.limits == second.limits

/-- Where the configuration is kept. -/
def standardPath : String := ".factgraph/config.yaml"

end Config

end ArchFacts
