/-!
# Directed graphs

A directed graph with labelled nodes. Nodes are numbered, so labels may repeat; edges are listed, so
an edge may stand there more than once, and a node may have an edge to itself.
-/

namespace ArchFacts

/-- A directed graph. -/
structure DirectedGraph where
  labels : List String
  edges : List (Fin labels.length × Fin labels.length)

namespace DirectedGraph

/-- The number of nodes. -/
abbrev size (g : DirectedGraph) : Nat := g.labels.length

/-- A node. -/
abbrev Node (g : DirectedGraph) : Type := Fin g.size

/-- The nodes, in order. -/
def nodes (g : DirectedGraph) : List g.Node := List.finRange g.size

/-- The label of a node. -/
def label (g : DirectedGraph) (v : g.Node) : String := g.labels[v]

/-- The targets of the edges of a node, in the order of the edges. -/
def successors (g : DirectedGraph) (v : g.Node) : List g.Node :=
  (g.edges.filter (·.1 = v)).map (·.2)

/-- The graph with these labels and edges; an edge that leads from or to no node is left out. -/
def ofNumbers (labels : List String) (edges : List (Nat × Nat)) : DirectedGraph where
  labels := labels
  edges := edges.filterMap fun e =>
    if h : e.1 < labels.length ∧ e.2 < labels.length then some (⟨e.1, h.1⟩, ⟨e.2, h.2⟩) else none

/-- The graph with these labels and edges between them; a label stands for the first node that has
it, and an edge from or to no label is left out. -/
def ofLabels (labels : List String) (edges : List (String × String)) : DirectedGraph where
  labels := labels
  edges := edges.filterMap fun e => do
    let v ← labels.finIdxOf? e.1
    let w ← labels.finIdxOf? e.2
    return (v, w)

end DirectedGraph

end ArchFacts
