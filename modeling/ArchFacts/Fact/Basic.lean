import ArchFacts.Fact.Kind
import ArchFacts.Json.Printer

/-!
# Facts

A fact is a named node of the architecture of a code base: a module, a symbol, a route, a storage,
the imports of a file. Its relations are the edges it declares; each names its target, which need
not be the name of any fact. Names are not unique, and may be empty.
-/

namespace ArchFacts

/-- An edge that a fact declares. -/
structure Relation where
  kind : RelationKind
  target : String
  deriving DecidableEq, Repr, Inhabited

/-- A node of the architecture. An empty `file` or `repo` and the line 0 mean that it is unknown. -/
structure Fact where
  kind : FactKind
  name : String
  file : String := ""
  line : UInt32 := 0
  /-- The label of the repository that the fact belongs to. -/
  repo : String := ""
  /-- What else is known of the fact, by name. -/
  props : Json.Fields Json.Value := []
  relations : List Relation := []
  deriving Repr, Inhabited

namespace Fact

/-- A fact with a kind and a name alone. -/
def of (kind : FactKind) (name : String) : Fact := { kind, name }

/-- The fact, at a line of a file. -/
def withFile (f : Fact) (file : String) (line : UInt32) : Fact := { f with file, line }

/-- The fact, labelled with a repository. -/
def withRepo (f : Fact) (repo : String) : Fact := { f with repo }

/-- The fact, with a property set. -/
def withProp (f : Fact) (key : String) (value : Json.Value) : Fact :=
  { f with props := Json.Fields.insert key value f.props }

/-- The fact, with one more relation after the others. -/
def withRelation (f : Fact) (kind : RelationKind) (target : String) : Fact :=
  { f with relations := f.relations ++ [⟨kind, target⟩] }

/-- Whether the fact declares a relation of this kind. -/
def hasRelation (f : Fact) (kind : RelationKind) : Bool :=
  f.relations.any (·.kind == kind)

/-- The form of a property that queries compare: a string as it is, any other value as its text. -/
def propText? (f : Fact) (key : String) : Option String :=
  (Json.Fields.get? key f.props).map fun
    | .string s => s
    | v => v.text

/-- Whether two facts are the same, their properties compared as values. -/
def equal (a b : Fact) : Bool :=
  a.kind == b.kind && a.name == b.name && a.file == b.file && a.line == b.line && a.repo == b.repo
    && Json.Value.equalFields a.props b.props && a.relations == b.relations

end Fact

/-- A name is that of a module: some fact is a module with this name. The empty name is none. -/
def IsModuleName (facts : List Fact) (name : String) : Prop :=
  name ≠ "" ∧ ∃ f ∈ facts, f.kind = .codeModule ∧ f.name = name

end ArchFacts
