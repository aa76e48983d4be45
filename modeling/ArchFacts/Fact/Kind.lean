/-!
# Kinds of facts and of relations

A kind is a word. A few words have a meaning of their own here, every other one is accepted as it
is: so a kind is its word, and the known kinds are names for some of them. Kinds are ordered with
the known ones first, in the order in which they are listed, and the others after them by their
words.
-/

namespace ArchFacts

/-- The kind of a fact. -/
structure FactKind where
  word : String
  deriving DecidableEq, Repr, Inhabited

namespace FactKind

/-- A module, a package or a directory. -/
def codeModule : FactKind := ⟨"module"⟩

/-- A declared symbol: a function, a type, a constant. -/
def symbol : FactKind := ⟨"symbol"⟩

/-- A route that is served. -/
def route : FactKind := ⟨"route"⟩

/-- A place where data is kept. -/
def storage : FactKind := ⟨"storage"⟩

/-- The record of what a source file imports. -/
def dependency : FactKind := ⟨"dependency"⟩

/-- The known kinds, in order. -/
def known : List FactKind := [codeModule, symbol, route, storage, dependency]

/-- Whether a kind is one of the known ones. -/
def isKnown (k : FactKind) : Bool := known.contains k

/-- The place of a kind among the known ones; the others come after them. -/
def rank (k : FactKind) : Nat := known.idxOf k

/-- Whether `a` comes before `b` or is `b`. -/
def le (a b : FactKind) : Bool :=
  a.rank < b.rank || (a.rank == b.rank && a.word ≤ b.word)

end FactKind

/-- The kind of a relation. -/
structure RelationKind where
  word : String
  deriving DecidableEq, Repr, Inhabited

namespace RelationKind

/-- A container declares the target. -/
def declares : RelationKind := ⟨"declares"⟩

/-- The source imports the target. -/
def imports : RelationKind := ⟨"imports"⟩

/-- The source calls the target. -/
def calls : RelationKind := ⟨"calls"⟩

/-- The source implements the target. -/
def implements : RelationKind := ⟨"implements"⟩

/-- The source depends on the target in some way. -/
def dependsOn : RelationKind := ⟨"depends_on"⟩

/-- The known kinds, in order. -/
def known : List RelationKind := [declares, imports, calls, implements, dependsOn]

/-- Whether a kind is one of the known ones. -/
def isKnown (k : RelationKind) : Bool := known.contains k

/-- The place of a kind among the known ones; the others come after them. -/
def rank (k : RelationKind) : Nat := known.idxOf k

/-- Whether `a` comes before `b` or is `b`. -/
def le (a b : RelationKind) : Bool :=
  a.rank < b.rank || (a.rank == b.rank && a.word ≤ b.word)

end RelationKind

end ArchFacts
