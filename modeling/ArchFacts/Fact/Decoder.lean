import ArchFacts.Fact.Basic
import ArchFacts.Json.Decode

/-!
# Reading facts

A fact is an object or an array of its fields, `kind` alone being required; so is a relation, with
both of its fields required. A line is a number of 32 bits.
-/

namespace ArchFacts

open Json

/-- Decodes the kind of a fact. -/
def FactKind.decode (node : Node) : Except DecodeError FactKind :=
  node.decodeString.map FactKind.mk

/-- Decodes the kind of a relation. -/
def RelationKind.decode (node : Node) : Except DecodeError RelationKind :=
  node.decodeString.map RelationKind.mk

namespace Relation

/-- The fields of a relation. -/
def fields : List (RecordField Relation) :=
  [(RecordField.of "kind" RelationKind.decode fun kind r => { r with kind }).need,
   (RecordField.of "target" Node.decodeString fun target r => { r with target }).need]

/-- Decodes a relation. -/
def decode (origin : Origin) : Node → Except DecodeError Relation :=
  RecordField.decodeRecord origin "struct Relation" fields ⟨⟨""⟩, ""⟩

end Relation

namespace Fact

/-- The arrays and objects that may stand inside one another in a property: the fact and the table
of its properties are around it. -/
def propDepth : Nat := deepest - 2

/-- Decodes a line. -/
def decodeLine (node : Node) : Except DecodeError UInt32 :=
  (node.decodeUnsigned UInt32.size "u32").map UInt32.ofNat

/-- The fields of a fact. -/
def fields (origin : Origin) : List (RecordField Fact) :=
  [(RecordField.of "kind" FactKind.decode fun kind f => { f with kind }).need,
   RecordField.of "name" Node.decodeString fun name f => { f with name },
   RecordField.of "file" Node.decodeString fun file f => { f with file },
   RecordField.of "line" decodeLine fun line f => { f with line },
   RecordField.of "repo" Node.decodeString fun repo f => { f with repo },
   RecordField.of "props" (Node.decodeTable propDepth) fun props f => { f with props },
   RecordField.of "relations" (Node.decodeList (Relation.decode origin))
     fun relations f => { f with relations }]

/-- Decodes a fact. -/
def decode (origin : Origin) : Node → Except DecodeError Fact :=
  RecordField.decodeRecord origin "struct Fact" (fields origin) (Fact.of ⟨""⟩ "")

/-- The fact that a text holds. -/
def read (text : List Char) : Except DecodeError Fact :=
  readWhole .fault (decode .text) text

/-- The fact that a value stands for. -/
def ofValue (v : Value) : Except DecodeError Fact :=
  decode .value v.node

end Fact

end ArchFacts
