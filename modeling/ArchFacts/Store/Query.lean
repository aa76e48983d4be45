import ArchFacts.Fact.Decoder
import ArchFacts.Fact.Writer
import ArchFacts.Store.Filter

/-!
# Queries

A query has criteria in six dimensions: kind, file, name, repository, relation and property. Within
a dimension one criterion suffices, and the dimensions must all be fulfilled; one without criteria
always is. The facts that match are given out in pages.
-/

namespace ArchFacts

open Json

/-- What is asked for, and which page of it. -/
structure Query where
  kind : Option FactKind := none
  /-- Any of these kinds. -/
  kinds : List FactKind := []
  file : Option String := none
  /-- Any of these files. -/
  files : List String := []
  /-- A text that the file begins with. -/
  fileStart : Option String := none
  /-- A text that the name contains. -/
  name : Option String := none
  /-- Any of these names. -/
  names : List String := []
  repo : Option String := none
  /-- The kind of a relation that is declared. -/
  relationKind : Option RelationKind := none
  /-- A property that is there. -/
  propKey : Option String := none
  /-- What that property is, as a text. -/
  propText : Option String := none
  /-- How many matches come before the page. -/
  offset : Nat := 0
  /-- How many matches the page has room for; 0 leaves that open. -/
  limit : Nat := 0
  deriving DecidableEq, Repr

/-- The text of a criterion that is given: one that is set and not empty. -/
def given? (text : Option String) : Option String := text.filter (· ≠ "")

namespace Query

/-- The size of a page when none is asked for. -/
def defaultLimit : Nat := 100

/-- The greatest size of a page. -/
def greatestLimit : Nat := 500

/-- The size of the page. -/
def pageSize (q : Query) : Nat := if q.limit = 0 then defaultLimit else min q.limit greatestLimit

/-- Whether the dimension of kinds is fulfilled. -/
def acceptsKind (q : Query) (f : Fact) : Bool :=
  (q.kind.isNone && q.kinds.isEmpty) || q.kind == some f.kind || q.kinds.contains f.kind

/-- Whether the dimension of files is fulfilled. -/
def acceptsFile (q : Query) (f : Fact) : Bool :=
  ((given? q.file).isNone && (given? q.fileStart).isNone && q.files.isEmpty)
    || given? q.file == some f.file || q.files.contains f.file
    || (given? q.fileStart).any (Text.startsWith f.file)

/-- Whether the dimension of names is fulfilled. -/
def acceptsName (q : Query) (f : Fact) : Bool :=
  ((given? q.name).isNone && q.names.isEmpty)
    || (given? q.name).any (Text.contains f.name) || q.names.contains f.name

/-- Whether the dimension of properties is fulfilled. -/
def acceptsProp (q : Query) (f : Fact) : Bool :=
  holdsIfSet (given? q.propKey) fun key =>
    (f.propText? key).any fun text => holdsIfSet q.propText (text == ·)

/-- Whether a fact fulfils every dimension. -/
def accepts (q : Query) (f : Fact) : Bool :=
  q.acceptsKind f && q.acceptsFile f && q.acceptsName f
    && holdsIfSet (given? q.repo) (f.repo == ·) && holdsIfSet q.relationKind f.hasRelation
    && q.acceptsProp f

/-! ### Reading and writing -/

/-- Decodes a position or a size. -/
def decodeSize : Node → Except DecodeError Nat := Node.decodeUnsigned UInt64.size "usize"

/-- A criterion that may be left open. -/
def criterion {β : Type} (name : String) (decode : Node → Except DecodeError β)
    (set : Option β → Query → Query) : RecordField Query :=
  .of name (Node.decodeOption decode) set

/-- A choice of things. -/
def choice {β : Type} (name : String) (decode : Node → Except DecodeError β)
    (set : List β → Query → Query) : RecordField Query :=
  .of name (Node.decodeList decode) set

/-- The fields of a query. -/
def fields : List (RecordField Query) :=
  [criterion "kind" FactKind.decode fun kind q => { q with kind },
   choice "kinds" FactKind.decode fun kinds q => { q with kinds },
   criterion "file" Node.decodeString fun file q => { q with file },
   choice "files" Node.decodeString fun files q => { q with files },
   criterion "file_prefix" Node.decodeString fun fileStart q => { q with fileStart },
   criterion "name" Node.decodeString fun name q => { q with name },
   choice "names" Node.decodeString fun names q => { q with names },
   criterion "repo" Node.decodeString fun repo q => { q with repo },
   criterion "rel_kind" RelationKind.decode fun relationKind q => { q with relationKind },
   criterion "prop_key" Node.decodeString fun propKey q => { q with propKey },
   criterion "prop_value" Node.decodeString fun propText q => { q with propText },
   .of "offset" decodeSize fun offset q => { q with offset },
   .of "limit" decodeSize fun limit q => { q with limit }]

/-- Decodes a query. -/
def decode (origin : Origin) : Node → Except DecodeError Query :=
  RecordField.decodeRecord origin "struct QueryOptions" fields {}

/-- The query that a value stands for. -/
def ofValue (v : Value) : Except DecodeError Query := decode .value v.node

/-- A text that may be left open, as a value. -/
def textValue (text : Option String) : Value := (text.map Value.string).getD .null

/-- The query as a value, with all of its fields. -/
def value (q : Query) : Value :=
  .ofPairs
    [("kind", textValue (q.kind.map (·.word))),
     ("kinds", .ofTexts (q.kinds.map (·.word))),
     ("file", textValue q.file),
     ("files", .ofTexts q.files),
     ("file_prefix", textValue q.fileStart),
     ("name", textValue q.name),
     ("names", .ofTexts q.names),
     ("repo", textValue q.repo),
     ("rel_kind", textValue (q.relationKind.map (·.word))),
     ("prop_key", textValue q.propKey),
     ("prop_value", textValue q.propText),
     ("offset", .ofNat q.offset),
     ("limit", .ofNat q.limit)]

end Query

/-- A page of the facts that match a query. -/
structure Page where
  facts : List Fact
  /-- How many facts match. -/
  total : Nat
  /-- How many of them come before the page. -/
  offset : Nat
  /-- How many the page has room for. -/
  limit : Nat
  deriving Repr

namespace Page

/-- The sum of two sizes, or the greatest size if the sum is none. -/
def addSizes (m n : Nat) : Nat := min (m + n) (UInt64.size - 1)

/-- Whether there are matches after the page. It may begin far behind the last match. -/
def hasMore (p : Page) : Bool := addSizes p.offset p.facts.length < p.total

/-- The page as a value. -/
def value (p : Page) : Value :=
  .ofPairs
    [("total", .ofNat p.total),
     ("offset", .ofNat p.offset),
     ("limit", .ofNat p.limit),
     ("has_more", .bool p.hasMore),
     ("facts", .array (p.facts.map Fact.value))]

end Page

namespace Store

/-- The positions of the facts that match a query. -/
def positionsOf (s : Store) (q : Query) : List Nat :=
  (s.facts.zipIdx.filter fun entry => q.accepts entry.1).map (·.2)

/-- The page of a query. -/
def query (s : Store) (q : Query) : Page :=
  let positions := s.positionsOf q
  { facts := s.collect ((positions.drop q.offset).take q.pageSize)
    total := positions.length
    offset := q.offset
    limit := q.pageSize }

end Store

end ArchFacts
