import ArchFacts.Graph.Traverse
import ArchFacts.Text.Digits

/-!
# Impact

The impact of a node is what depends on it, directly or through others: the nodes of the reverse
traversal from it, itself left out, by their distance. A summary in words counts them by kind.
-/

namespace ArchFacts

/-- What an analysis of impact is asked for. -/
structure ImpactOptions where
  maxDepth : Nat := 0
  maxNodes : Nat := 0
  /-- Whether to report what the node itself depends on as well. -/
  includeForward : Bool := false
  deriving DecidableEq, Repr

namespace ImpactOptions

/-- The depth when none is asked for. -/
def defaultDepth : Nat := 3

/-- The greatest depth. -/
def greatestDepth : Nat := 10

/-- The number of nodes when none is asked for. -/
def defaultNodes : Nat := 200

/-- The greatest number of nodes. -/
def greatestNodes : Nat := 500

/-- The depth ceiling. -/
def depthCeiling (o : ImpactOptions) : Nat := ceiling o.maxDepth defaultDepth greatestDepth

/-- The ceiling of nodes, the analysed one among them. -/
def nodeCeiling (o : ImpactOptions) : Nat := ceiling o.maxNodes defaultNodes greatestNodes

/-- The traversal in a direction, under the ceilings of the analysis. -/
def traversal (o : ImpactOptions) (direction : Direction) : TraversalOptions :=
  { direction, maxDepth := o.depthCeiling, maxNodes := o.nodeCeiling }

end ImpactOptions

/-- The nodes at one distance. -/
structure Bucket where
  depth : Nat
  nodes : List TraversalNode
  deriving DecidableEq, Repr

/-- The result of an analysis of impact. -/
structure Impact where
  target : String
  /-- How many nodes depend on the target. -/
  total : Nat
  /-- The nodes that depend on the target, by ascending distance. -/
  byDepth : List Bucket
  summary : String
  dependents : Traversal
  forward : Option Traversal
  deriving DecidableEq, Repr

/-- The word for the kind of a node in a summary. -/
def TraversalNode.label (n : TraversalNode) : String :=
  match n.info.kind with
  | some kind => kind.word
  | none => "unknown"

namespace Impact

/-- Puts a node at the end of the bucket of its depth. Where there is none, one is opened, before
those of greater depths. -/
def place : List Bucket → TraversalNode → List Bucket
  | [], n => [⟨n.depth, [n]⟩]
  | b :: rest, n =>
    if n.depth < b.depth then ⟨n.depth, [n]⟩ :: b :: rest
    else if n.depth = b.depth then ⟨b.depth, b.nodes ++ [n]⟩ :: rest
    else b :: place rest n

/-- The nodes below the start, by ascending depth. -/
def buckets (nodes : List TraversalNode) : List Bucket :=
  (nodes.filter fun n => 0 < n.depth).foldl place []

/-- A word for a count of things: a final `y` becomes `ies`, any other word takes an `s`. -/
def plural (word : String) (count : Nat) : String :=
  if count = 1 then word
  else match word.toList.reverse with
    | 'y' :: stem => String.ofList stem.reverse ++ "ies"
    | _ => word ++ "s"

/-- Counts one more of a label. A label that was not counted before goes to the end. -/
def tally : List (String × Nat) → String → List (String × Nat)
  | [], label => [(label, 1)]
  | (counted, count) :: rest, label =>
    if counted = label then (counted, count + 1) :: rest
    else (counted, count) :: tally rest label

/-- How many of some nodes have each label. -/
def labelCounts (nodes : List TraversalNode) : List (String × Nat) :=
  (nodes.map (·.label)).foldl tally []

/-- A bucket in words. -/
def describe (b : Bucket) : String :=
  "depth " ++ Text.digits b.depth ++ ": " ++
    ", ".intercalate ((labelCounts b.nodes).map fun c => Text.digits c.2 ++ " " ++ plural c.1 c.2)

/-- The buckets in words. -/
def summarize (total : Nat) (byDepth : List Bucket) : String :=
  if total = 0 then "no dependents"
  else Text.digits total ++ " " ++ plural "dependent" total ++ ": " ++
    "; ".intercalate (byDepth.map describe)

end Impact

namespace Graph

/-- What depends on a node, directly or through others. -/
def impact (g : Graph) (target : String) (o : ImpactOptions) : Impact :=
  let dependents := g.traverse target (o.traversal .reverse)
  let byDepth := Impact.buckets dependents.nodes
  let total := (byDepth.flatMap (·.nodes)).length
  { target, total, byDepth, dependents
    summary := Impact.summarize total byDepth
    forward :=
      if o.includeForward then some (g.traverse target (o.traversal .forward)) else none }

end Graph

end ArchFacts
