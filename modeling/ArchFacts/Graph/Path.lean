import ArchFacts.Graph.Traverse

/-!
# Shortest paths

A path leads from a node to another one along edges, forward. The search goes level by level and
keeps with every name it finds the trail that found it first, so the trail to the goal has as few
edges as any. From a node to itself leads the path without edges.
-/

namespace ArchFacts

/-- The result of a search for a path. -/
structure PathResult where
  source : String
  goal : String
  found : Bool
  /-- The names from the source to the goal; none if there is no path. -/
  path : List String
  /-- The edges between them. -/
  edges : List Edge
  deriving DecidableEq, Repr

/-- The number of edges of a path. -/
def PathResult.hops (r : PathResult) : Nat := r.edges.length

namespace Graph

/-- The depth of a search when none is asked for. -/
def defaultPathDepth : Nat := 10

/-- The greatest depth of a search. -/
def greatestPathDepth : Nat := 20

/-- A name that was found, with the edges that lead to it from the source. -/
structure Trail where
  name : String
  edges : List Edge
  deriving DecidableEq, Repr

/-- A search at the end of a level. -/
structure Search where
  /-- The names found so far. -/
  seen : List String
  /-- The trails of the last level. -/
  level : List Trail
  deriving DecidableEq, Repr

namespace Search

/-- The trails that go one edge further. -/
def extend (g : Graph) (kinds : List RelationKind) (t : Trail) : List Trail :=
  (g.crossings .forward kinds t.name).map fun e => ⟨e.target, t.edges ++ [e]⟩

/-- Keeps a trail to a name that was not found before. -/
def find (s : Search) (t : Trail) : Search :=
  if t.name ∈ s.seen then s else ⟨t.name :: s.seen, s.level ++ [t]⟩

/-- Goes on to the next level. -/
def nextLevel (g : Graph) (kinds : List RelationKind) (s : Search) : Search :=
  (s.level.flatMap (extend g kinds)).foldl find { s with level := [] }

/-- The first trail to the goal that is found in a number of further levels. -/
def trailTo (g : Graph) (kinds : List RelationKind) (goal : String) : Nat → Search → Option Trail
  | 0, _ => none
  | left + 1, s =>
    let s := s.nextLevel g kinds
    match s.level.find? (·.name == goal) with
    | some t => some t
    | none => trailTo g kinds goal left s

end Search

/-- A shortest path from a node to another one. -/
def findPath (g : Graph) (source goal : String) (kinds : List RelationKind) (maxDepth : Nat) :
    PathResult :=
  if source = goal then ⟨source, goal, true, [source], []⟩
  else
    let depth := ceiling maxDepth defaultPathDepth greatestPathDepth
    match Search.trailTo g kinds goal depth ⟨[source], [⟨source, []⟩]⟩ with
    | some t => ⟨source, goal, true, source :: t.edges.map (·.target), t.edges⟩
    | none => ⟨source, goal, false, [], []⟩

end Graph

end ArchFacts
