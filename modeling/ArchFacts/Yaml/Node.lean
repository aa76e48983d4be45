import ArchFacts.Yaml.Token

/-!
# YAML nodes

What a YAML document holds: scalars, sequences and mappings. A scalar is a text; how it is written
and what its tag says decides if it can also be read as a number or as nothing at all. A value that
is left out is the empty plain scalar.

A node can have an anchor, which is a number, and an alias stands for the node with that anchor. Of
several it is the last one that counts. An alias can stand inside the very node that it stands for.
-/

namespace ArchFacts.Yaml

/-- A tag: the bytes of its URI. -/
abbrev Tag := List UInt8

/-- What a node has besides its contents. -/
structure Properties where
  anchor : Option Nat := none
  tag : Option Tag := none
  deriving DecidableEq, Repr

/-- A node. -/
inductive Node where
  | alias (anchor : Nat)
  | scalar (properties : Properties) (style : Style) (text : String)
  | sequence (properties : Properties) (items : List Node)
  | mapping (properties : Properties) (entries : List (Node × Node))
  deriving Repr, Inhabited

namespace Node

/-- The value that is left out. -/
def missing : Node := .scalar {} .plain ""

/-- The properties of a node. An alias has none. -/
def properties : Node → Properties
  | .alias _ => {}
  | .scalar p _ _ => p
  | .sequence p _ => p
  | .mapping p _ => p

mutual

/-- A node and all nodes in it, in the order in which they start. -/
def all : Node → List Node
  | .alias anchor => [.alias anchor]
  | .scalar p style text => [.scalar p style text]
  | .sequence p items => .sequence p items :: allItems items
  | .mapping p entries => .mapping p entries :: allEntries entries

/-- `all`, for every item. -/
def allItems : List Node → List Node
  | [] => []
  | item :: rest => all item ++ allItems rest

/-- `all`, for every key and every value. -/
def allEntries : List (Node × Node) → List Node
  | [] => []
  | (key, value) :: rest => all key ++ all value ++ allEntries rest

end

/-- The node that a node of a document stands for: the last one with its anchor if it is an alias,
else the node itself. -/
def resolve (node document : Node) : Node :=
  match node with
  | .alias anchor =>
    (document.all.reverse.find? (·.properties.anchor == some anchor)).getD node
  | _ => node

end Node

end ArchFacts.Yaml
