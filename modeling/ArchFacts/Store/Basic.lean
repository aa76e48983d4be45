import ArchFacts.Graph.Basic
import ArchFacts.Text.Match

/-!
# The store of facts

A store is a growing sequence of facts. Four indexes list the positions of the facts by their kind,
file, name and repository; a fact without a file, a name or a repository is left out of the index in
question. A look-up goes through an index, and since positions are listed in ascending order it
gives the facts in the order in which they were added.

A store also keeps the graph that was last built of it. Facts that are added or relabelled later do
not show in that graph.
-/

namespace ArchFacts

/-- A run of positions, from `start` up to but not including `stop`. -/
structure Span where
  start : Nat
  stop : Nat
  deriving DecidableEq, Repr

/-- The number of positions. -/
def Span.length (s : Span) : Nat := s.stop - s.start

/-- Adds a position under a label. What has no label, the empty one, is not listed. -/
def Index.pushLabel (index : Index String Nat) (label : String) (position : Nat) :
    Index String Nat :=
  if label = "" then index else index.push label position

/-- The positions of some labels. -/
def Index.ofLabels (labels : List String) : Index String Nat :=
  labels.zipIdx.foldl (fun index entry => index.pushLabel entry.1 entry.2) .empty

/-- A sequence of facts with its indexes and the graph that was last built of it. -/
structure Store where
  facts : List Fact
  byKind : Index FactKind Nat
  byFile : Index String Nat
  byName : Index String Nat
  byRepo : Index String Nat
  graph : Option Graph
  deriving Repr

namespace Store

/-- The store without facts. -/
def empty : Store := ⟨[], .empty, .empty, .empty, .empty, none⟩

/-- The number of facts. -/
def count (s : Store) : Nat := s.facts.length

/-- Whether there are no facts. -/
def isEmpty (s : Store) : Bool := s.facts.isEmpty

/-- The fact at a position. -/
def get? (s : Store) (position : Nat) : Option Fact := s.facts[position]?

/-! ### Adding -/

/-- Adds a fact after the others. -/
def push (s : Store) (f : Fact) : Store :=
  { facts := s.facts ++ [f]
    byKind := s.byKind.push f.kind s.count
    byFile := s.byFile.pushLabel f.file s.count
    byName := s.byName.pushLabel f.name s.count
    byRepo := s.byRepo.pushLabel f.repo s.count
    graph := s.graph }

/-- Adds facts after the others. -/
def pushAll (s : Store) (facts : List Fact) : Store := facts.foldl push s

/-- Adds facts after the others and tells their positions. -/
def add (s : Store) (facts : List Fact) : Store × Span :=
  (s.pushAll facts, ⟨s.count, (s.pushAll facts).count⟩)

/-! ### Looking up -/

/-- The facts at some positions. -/
def collect (s : Store) (positions : List Nat) : List Fact := positions.filterMap s.get?

/-- The facts of a kind. -/
def ofKind (s : Store) (kind : FactKind) : List Fact := s.collect (s.byKind.get kind)

/-- The facts in a file. -/
def inFile (s : Store) (file : String) : List Fact := s.collect (s.byFile.get file)

/-- The facts with a name. -/
def named (s : Store) (name : String) : List Fact := s.collect (s.byName.get name)

/-- The facts of a repository. -/
def inRepo (s : Store) (repo : String) : List Fact := s.collect (s.byRepo.get repo)

/-- The facts with some names, name by name in the order in which these are given. -/
def namedAny (s : Store) (names : List String) : List Fact := names.flatMap s.named

/-- The facts whose name contains a text. Facts without a name are never found. -/
def searchNames (s : Store) (needle : String) : List Fact :=
  s.facts.filter fun f => f.name != "" && Text.contains f.name needle

/-- The facts whose name begins with a text. Facts without a name are never found. -/
def nameStartsWith (s : Store) (start : String) : List Fact :=
  s.facts.filter fun f => f.name != "" && Text.startsWith f.name start

/-! ### Summaries -/

/-- How many facts there are of each kind, the kinds in order of first appearance. -/
def kindCounts (s : Store) : List (FactKind × Nat) :=
  let kinds := s.facts.map (·.kind)
  (firstSeen kinds).map fun kind => (kind, kinds.count kind)

/-- The repositories, in order of first appearance. -/
def repos (s : Store) : List String := firstSeen ((s.facts.map (·.repo)).filter (· ≠ ""))

/-- The files, in order of first appearance. -/
def files (s : Store) : List String := firstSeen ((s.facts.map (·.file)).filter (· ≠ ""))

/-! ### The graph -/

/-- Builds the graph of the facts and keeps it. -/
def rebuildGraph (s : Store) : Store := { s with graph := some (.build s.facts) }

end Store

end ArchFacts
