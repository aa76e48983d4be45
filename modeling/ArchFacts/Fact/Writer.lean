import ArchFacts.Fact.Basic

/-!
# Writing facts

A fact is written as an object with its kind and name first, and those of the other fields that are
known: an empty text, list or table and the line 0 are left out. `Fact.write` is its text in a fact
file, with the fields in this order, and `Fact.value` the value that stands in reports.
-/

namespace ArchFacts

namespace Relation

/-- The text of a relation. -/
def write (r : Relation) : List Char :=
  Json.writeObject [("kind", Json.quote r.kind.word), ("target", Json.quote r.target)]

/-- The value of a relation. -/
def value (r : Relation) : Json.Value :=
  .ofPairs [("kind", .string r.kind.word), ("target", .string r.target)]

end Relation

namespace Fact

/-- The fields of a fact that are written, by name and text. -/
def writtenFields (f : Fact) : List (String × List Char) :=
  [("kind", Json.quote f.kind.word), ("name", Json.quote f.name)]
    ++ (if f.file = "" then [] else [("file", Json.quote f.file)])
    ++ (if f.line = 0 then [] else [("line", Json.intText f.line.toNat)])
    ++ (if f.repo = "" then [] else [("repo", Json.quote f.repo)])
    ++ (if f.props.isEmpty then [] else
        [("props", Json.writeObject (Json.Value.writeFields f.props))])
    ++ (if f.relations = [] then [] else
        [("relations", Json.writeArray (f.relations.map Relation.write))])

/-- The text of a fact. -/
def write (f : Fact) : List Char := Json.writeObject f.writtenFields

/-- The value of a fact. -/
def value (f : Fact) : Json.Value :=
  .ofPairs <|
    [("kind", .string f.kind.word), ("name", .string f.name)]
    ++ (if f.file = "" then [] else [("file", .string f.file)])
    ++ (if f.line = 0 then [] else [("line", .int f.line.toNat)])
    ++ (if f.repo = "" then [] else [("repo", .string f.repo)])
    ++ (if f.props.isEmpty then [] else [("props", .object f.props)])
    ++ (if f.relations = [] then [] else [("relations", .array (f.relations.map Relation.value))])

end Fact

end ArchFacts
