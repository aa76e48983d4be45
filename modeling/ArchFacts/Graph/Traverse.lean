import ArchFacts.Graph.Basic

/-!
# Traversal

A traversal goes through the graph from a start node, level by level: the edges at the nodes of one
level are crossed in order, and the nodes that they reach for the first time are the next level. It
ends at a depth ceiling. A second ceiling holds for the nodes it reports: once it has reported that
many, nodes it finds are dropped, which the result says, and not gone on from. Nodes of other kinds
than those asked for are not reported and gone on from all the same; the start is always reported.
-/

namespace ArchFacts

/-- A ceiling as it is used: 0 asks for the default, and more than `greatest` is not granted. -/
def ceiling (asked default greatest : Nat) : Nat :=
  if asked = 0 then default else min asked greatest

/-- Whether something may pass a choice of kinds; the empty choice lets everything pass. -/
def chosen {κ : Type} [BEq κ] (kinds : List κ) (kind : κ) : Bool :=
  kinds.isEmpty || kinds.contains kind

/-- What a traversal is asked for. -/
structure TraversalOptions where
  direction : Direction := .forward
  /-- The kinds of relations to follow; none means all. -/
  relationKinds : List RelationKind := []
  /-- The kinds of nodes to report; none means all. -/
  nodeKinds : List FactKind := []
  maxDepth : Nat := 0
  maxNodes : Nat := 0
  deriving DecidableEq, Repr

namespace TraversalOptions

/-- The depth when none is asked for. -/
def defaultDepth : Nat := 5

/-- The greatest depth. -/
def greatestDepth : Nat := 20

/-- The number of nodes when none is asked for. -/
def defaultNodes : Nat := 100

/-- The greatest number of nodes. -/
def greatestNodes : Nat := 500

/-- The depth ceiling. -/
def depthCeiling (o : TraversalOptions) : Nat := ceiling o.maxDepth defaultDepth greatestDepth

/-- The ceiling of reported nodes. -/
def nodeCeiling (o : TraversalOptions) : Nat := ceiling o.maxNodes defaultNodes greatestNodes

/-- Whether a node of which this is known is reported. -/
def reports (o : TraversalOptions) (info : NodeInfo) : Bool :=
  o.nodeKinds.isEmpty || info.kind.any o.nodeKinds.contains

end TraversalOptions

/-- A node that was reported, with its distance from the start. -/
structure TraversalNode where
  name : String
  info : NodeInfo
  depth : Nat
  deriving DecidableEq, Repr

/-- The result of a traversal. -/
structure Traversal where
  start : String
  direction : Direction
  /-- The reported nodes, in the order in which they were found. -/
  nodes : List TraversalNode
  /-- The edges, in the order in which they were crossed. -/
  edges : List Edge
  /-- How many nodes were found and not dropped, reported or not. -/
  visited : Nat
  /-- The greatest depth at which a node was found and not dropped. -/
  deepest : Nat
  /-- Whether a node was dropped. -/
  truncated : Bool
  deriving DecidableEq, Repr

namespace Graph

/-- The edges at a node that a choice of relation kinds lets pass. -/
def crossings (g : Graph) (direction : Direction) (kinds : List RelationKind) (name : String) :
    List Edge :=
  (g.adjacent direction name).filter fun e => chosen kinds e.kind

/-- A traversal at the end of a level. -/
structure Walk where
  /-- The names found so far, the dropped ones included. -/
  seen : List String
  /-- The names of the last level. -/
  level : List String
  nodes : List TraversalNode
  edges : List Edge
  visited : Nat
  deepest : Nat
  truncated : Bool
  deriving DecidableEq, Repr

namespace Walk

/-- At the start node, level 0. -/
def atStart (g : Graph) (start : String) : Walk :=
  { seen := [start], level := [start], nodes := [⟨start, g.info start, 0⟩], edges := []
    visited := 1, deepest := 0, truncated := false }

/-- Looks at the name that an edge reaches, for the level at `depth`. -/
def find (g : Graph) (o : TraversalOptions) (depth : Nat) (w : Walk) (name : String) : Walk :=
  if name ∈ w.seen then w
  else if o.nodeCeiling ≤ w.nodes.length then
    { w with seen := name :: w.seen, truncated := true }
  else
    let info := g.info name
    { w with
      seen := name :: w.seen
      level := w.level ++ [name]
      nodes := if o.reports info then w.nodes ++ [⟨name, info, depth⟩] else w.nodes
      visited := w.visited + 1
      deepest := max w.deepest depth }

/-- Goes on to the level at `depth`: crosses the edges at the nodes of the last level. -/
def nextLevel (g : Graph) (o : TraversalOptions) (depth : Nat) (w : Walk) : Walk :=
  let crossed := w.level.flatMap (g.crossings o.direction o.relationKinds)
  (crossed.map (·.reached o.direction)).foldl (find g o depth)
    { w with level := [], edges := w.edges ++ crossed }

/-- Goes on for a number of levels, the first of which is at `depth + 1`. -/
def levels (g : Graph) (o : TraversalOptions) : Nat → Nat → Walk → Walk
  | 0, _, w => w
  | left + 1, depth, w => levels g o left (depth + 1) (w.nextLevel g o (depth + 1))

end Walk

/-- Goes through the graph from a start node. -/
def traverse (g : Graph) (start : String) (o : TraversalOptions) : Traversal :=
  let w := Walk.levels g o o.depthCeiling 0 (.atStart g start)
  { start, direction := o.direction, nodes := w.nodes, edges := w.edges
    visited := w.visited, deepest := w.deepest, truncated := w.truncated }

end Graph

end ArchFacts
