import ArchFacts.Fact.Basic
import ArchFacts.FirstSeen
import ArchFacts.Index
import ArchFacts.SlashPath

/-!
# The graph of the facts

The nodes of the graph are names. A fact with a name declares an edge from its name for each of its
relations; the target may be a name that no fact has. What is known of a node is taken from the
first fact with its name.

The imports of files are recorded by dependency facts, whose targets can lie deep inside a module.
So each import of such a fact that lives in the directory of a module also joins that module to the
nearest module around the target by a *bridge*, an edge that no fact declares. There is at most one
bridge from one module to another.
-/

namespace ArchFacts

/-- An edge, from the node that declares it to its target. -/
structure Edge where
  source : String
  target : String
  kind : RelationKind
  /-- Whether the edge is a bridge, not a declared relation. -/
  synthetic : Bool
  deriving DecidableEq, Repr

/-- Which way edges are followed: to the target, or back to the node that declares them. -/
inductive Direction where
  | forward
  | reverse
  deriving DecidableEq, Repr

/-- The end of an edge that is reached by following it. -/
def Edge.reached (e : Edge) : Direction → String
  | .forward => e.target
  | .reverse => e.source

/-- What is known of a node. -/
structure NodeInfo where
  kind : Option FactKind
  file : String
  line : UInt32
  deriving DecidableEq, Repr

namespace NodeInfo

/-- Nothing is known of a name that no fact has. -/
def unknown : NodeInfo := ⟨none, "", 0⟩

/-- What a fact tells of its node. -/
def ofFact (f : Fact) : NodeInfo := ⟨some f.kind, f.file, f.line⟩

end NodeInfo

/-- The graph of some facts. -/
structure Graph where
  facts : List Fact
  /-- The edges, in the order in which they were added. -/
  edges : List Edge
  /-- The edges by the node that declares them. -/
  forward : Index String Edge
  /-- The edges by their target. -/
  reverse : Index String Edge
  deriving Repr

namespace Graph

/-- The names of the modules among the facts. -/
def moduleNames (facts : List Fact) : List String :=
  (facts.filter fun f => f.kind = .codeModule ∧ f.name ≠ "").map (·.name)

/-- The first module on the way up from a path: the path itself, or the nearest of the paths above
it. -/
def enclosing (modules : List String) (path : List Char) : Option (List Char) :=
  if String.ofList path ∈ modules then some path
  else match _h : SlashPath.parentChars? path with
    | some parent => enclosing modules parent
    | none => none
termination_by path.length
decreasing_by exact SlashPath.length_parentChars? _h

/-- The module nearest around a target. Slashes at the end of the target do not count. -/
def nearestModule (modules : List String) (target : String) : Option String :=
  (enclosing modules (SlashPath.trimSlashes target.toList)).map String.ofList

/-- The edges that a fact declares. -/
def declaredEdges (f : Fact) : List Edge :=
  f.relations.map fun r => ⟨f.name, r.target, r.kind, false⟩

/-- The modules that the imports of a fact join: the module of its directory to the one nearest
around each target, unless that is the same. -/
def bridges (modules : List String) (f : Fact) : List (String × String) :=
  let source := SlashPath.containingDir f.file
  if f.kind = .dependency ∧ source ∈ modules then
    (f.relations.filter (·.kind = .imports)).filterMap fun r =>
      (nearestModule modules r.target).bind fun target =>
        if target = source then none else some (source, target)
  else []

/-- Whether there is a bridge between two modules. -/
def hasBridge (edges : List Edge) (ends : String × String) : Bool :=
  edges.any fun e => e.synthetic && e.source == ends.1 && e.target == ends.2

/-- Adds a bridge between two modules, unless there is one. -/
def addBridge (edges : List Edge) (ends : String × String) : List Edge :=
  if hasBridge edges ends then edges else edges ++ [⟨ends.1, ends.2, .imports, true⟩]

/-- Adds the edges of a fact, the declared ones first. A fact without a name has none. -/
def addFact (modules : List String) (edges : List Edge) (f : Fact) : List Edge :=
  if f.name = "" then edges
  else (bridges modules f).foldl addBridge (edges ++ declaredEdges f)

/-- The edges of the graph of some facts. -/
def edgesOf (facts : List Fact) : List Edge :=
  facts.foldl (addFact (moduleNames facts)) []

/-- The graph of some facts. -/
def build (facts : List Fact) : Graph :=
  let edges := edgesOf facts
  { facts, edges
    forward := .ofPairs (edges.map fun e => (e.source, e))
    reverse := .ofPairs (edges.map fun e => (e.target, e)) }

/-- The first fact with a name. -/
def factOf? (g : Graph) (name : String) : Option Fact :=
  if name = "" then none else g.facts.find? (·.name == name)

/-- What is known of a node. -/
def info (g : Graph) (name : String) : NodeInfo :=
  match g.factOf? name with
  | some f => .ofFact f
  | none => .unknown

/-- Whether a fact has this name. -/
def contains (g : Graph) (name : String) : Bool := (g.factOf? name).isSome

/-- The edges that a node declares. -/
def outgoing (g : Graph) (name : String) : List Edge := g.forward.get name

/-- The edges with a node as their target. -/
def incoming (g : Graph) (name : String) : List Edge := g.reverse.get name

/-- The edges at a node that can be followed in a direction. -/
def adjacent (g : Graph) (direction : Direction) (name : String) : List Edge :=
  match direction with
  | .forward => g.outgoing name
  | .reverse => g.incoming name

/-- How many names the facts have. -/
def nodeCount (g : Graph) : Nat :=
  (firstSeen ((g.facts.map (·.name)).filter (· ≠ ""))).length

/-- How many edges there are. -/
def edgeCount (g : Graph) : Nat := g.edges.length

/-- How many of the edges are bridges. -/
def bridgeCount (g : Graph) : Nat := g.edges.countP (·.synthetic)

end Graph

end ArchFacts
