import ArchFacts.Store.Basic

/-!
# Filters

A filter is up to four criteria that must all hold. A criterion that is set to an empty text is a
criterion too. `Store.filter` goes through the index of kinds if a kind is asked for, else through
that of files if a file is, and through all facts otherwise.
-/

namespace ArchFacts

/-- Criteria that must all hold. -/
structure FactFilter where
  kind : Option FactKind := none
  file : Option String := none
  /-- A text that the name contains. -/
  name : Option String := none
  /-- The kind of a relation that is declared. -/
  relationKind : Option RelationKind := none
  deriving DecidableEq, Repr

/-- Whether a criterion holds, if it is set. -/
def holdsIfSet {α : Type} (criterion : Option α) (holds : α → Bool) : Bool :=
  criterion.all holds

namespace FactFilter

/-- Whether a fact fulfils the criteria. -/
def accepts (q : FactFilter) (f : Fact) : Bool :=
  holdsIfSet q.kind (f.kind == ·) && holdsIfSet q.file (f.file == ·)
    && holdsIfSet q.name (Text.contains f.name) && holdsIfSet q.relationKind f.hasRelation

end FactFilter

namespace Store

/-- The facts among which those are that fulfil the criteria. -/
def candidates (s : Store) (q : FactFilter) : List Fact :=
  match q.kind, q.file with
  | some kind, _ => s.ofKind kind
  | none, some file => s.inFile file
  | none, none => s.facts

/-- The facts that fulfil the criteria. -/
def filter (s : Store) (q : FactFilter) : List Fact := (s.candidates q).filter q.accepts

end Store

end ArchFacts
