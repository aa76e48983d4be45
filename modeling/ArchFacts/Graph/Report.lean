import ArchFacts.Graph.Impact
import ArchFacts.Graph.Path
import ArchFacts.Json.Value

/-!
# Reports of graph searches

The results of searches as JSON values. What is not known of a node, and the mark of a bridge on an
edge that is none, is left out.
-/

namespace ArchFacts

open Json

/-- The word for a direction. -/
def Direction.word : Direction → String
  | .forward => "forward"
  | .reverse => "reverse"

/-- A node, as a value. -/
def TraversalNode.value (n : TraversalNode) : Value :=
  .ofPairs <|
    [("name", .string n.name), ("depth", .ofNat n.depth)]
    ++ (match n.info.kind with
      | some kind => [("kind", .string kind.word)]
      | none => [])
    ++ (if n.info.file = "" then [] else [("file", .string n.info.file)])
    ++ (if n.info.line = 0 then [] else [("line", .ofNat n.info.line.toNat)])

/-- An edge, as a value. -/
def Edge.value (e : Edge) : Value :=
  .ofPairs <|
    [("from", .string e.source), ("to", .string e.target), ("kind", .string e.kind.word)]
    ++ (if e.synthetic then [("synthetic", .bool true)] else [])

/-- A traversal, as a value. -/
def Traversal.value (t : Traversal) : Value :=
  .ofPairs
    [("start", .string t.start),
     ("direction", .string t.direction.word),
     ("nodes", .array (t.nodes.map TraversalNode.value)),
     ("edges", .array (t.edges.map Edge.value)),
     ("stats", .ofPairs
       [("nodes_visited", .ofNat t.visited),
        ("edges_traversed", .ofNat t.edges.length),
        ("max_depth_reached", .ofNat t.deepest),
        ("truncated", .bool t.truncated)])]

/-- The result of a search for a path, as a value. -/
def PathResult.value (r : PathResult) : Value :=
  .ofPairs
    [("from", .string r.source),
     ("to", .string r.goal),
     ("found", .bool r.found),
     ("path", .ofTexts r.path),
     ("edges", .array (r.edges.map Edge.value))]

/-- A bucket, as a field named for its depth. -/
def Bucket.field (b : Bucket) : String × Value :=
  (Text.digits b.depth, .array (b.nodes.map TraversalNode.value))

/-- An impact, as a value. -/
def Impact.value (i : Impact) : Value :=
  .ofPairs <|
    [("target", .string i.target),
     ("total", .ofNat i.total),
     ("by_depth", .ofPairs (i.byDepth.map Bucket.field)),
     ("summary", .string i.summary),
     ("dependents", i.dependents.value)]
    ++ (match i.forward with
      | some forward => [("forward", forward.value)]
      | none => [])

/-- The sizes of a graph, as fields. -/
def Graph.sizes (g : Graph) : List (String × Value) :=
  [("nodes", .ofNat g.nodeCount),
   ("edges", .ofNat g.edgeCount),
   ("synthetic_edges", .ofNat g.bridgeCount)]

end ArchFacts
