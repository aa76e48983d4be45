import ArchFacts.CommandLine.Scan
import ArchFacts.Graph.Traverse
import ArchFacts.Store.Query

/-!
# Commands

Each command has its own flags. Two flags, for the file of facts and for that of the configuration,
can stand before the command and after it; if they stand in both places, the latter counts.
-/

namespace ArchFacts.CommandLine

/-- What a traversal is asked for on the command line. -/
structure TraverseCommand where
  start : String
  direction : Direction
  relationKinds : List RelationKind
  nodeKinds : List FactKind
  maxDepth : Option Nat
  maxNodes : Option Nat
  deriving DecidableEq, Repr

/-- What a search for a path is asked for on the command line. -/
structure PathCommand where
  source : String
  goal : String
  relationKinds : List RelationKind
  maxDepth : Option Nat
  deriving DecidableEq, Repr

/-- What an analysis of impact is asked for on the command line. -/
structure ImpactCommand where
  target : String
  maxDepth : Option Nat
  maxNodes : Option Nat
  includeForward : Bool
  deriving DecidableEq, Repr

/-- The import of a file of facts. -/
structure ImportCommand where
  file : String
  /-- The label for the imported facts. -/
  repo : Option String
  /-- The path to put in front of their files. -/
  path : Option String
  deriving DecidableEq, Repr

/-- A command. -/
inductive Command where
  | stats
  | query (q : Query)
  | traverse (c : TraverseCommand)
  | path (c : PathCommand)
  | impact (c : ImpactCommand)
  | cycles
  | importFile (c : ImportCommand)
  | tag (repo path : String)
  deriving DecidableEq, Repr

/-- A command with the files it works on, where they are given. -/
structure Invocation where
  config : Option String
  data : Option String
  command : Command
  deriving DecidableEq, Repr

/-! ### Grammars -/

/-- A flag that takes a text. -/
def textFlag (name : String) (letter : Option Char) : Flag := ⟨name, letter, .set .text⟩

/-- A flag that takes a number. -/
def numberFlag (name : String) (letter : Option Char) : Flag := ⟨name, letter, .set .number⟩

/-- A flag that takes a list. -/
def listFlag (name : String) (letter : Option Char) : Flag := ⟨name, letter, .append⟩

/-- The flags that every command has. -/
def commonFlags : List Flag :=
  [⟨"config", none, .set .path⟩, ⟨"data", none, .set .path⟩,
   ⟨"help", some 'h', .help⟩, ⟨"version", some 'V', .version⟩]

/-- A grammar with the common flags beside its own. -/
def Grammar.withCommon (g : Grammar) : Grammar := { g with flags := g.flags ++ commonFlags }

/-- The grammar of the query command. -/
def queryGrammar : Grammar where
  flags :=
    [listFlag "kind" (some 'k'), listFlag "file" (some 'f'), textFlag "file-prefix" none,
     textFlag "name" (some 'n'), listFlag "exact-name" none, textFlag "repo" (some 'r'),
     textFlag "relation" none, textFlag "prop" none, textFlag "value" none,
     numberFlag "offset" none, numberFlag "limit" (some 'l')]
  requires := [("value", "prop")]

/-- The grammar of the traverse command. -/
def traverseGrammar : Grammar where
  flags :=
    [⟨"direction", some 'd', .set (.oneOf ["forward", "reverse"])⟩, listFlag "relation" none,
     listFlag "node-kind" none, numberFlag "max-depth" none, numberFlag "max-nodes" none]
  positionals := [⟨"START", .text⟩]
  required := ["START"]

/-- The grammar of the path command. -/
def pathGrammar : Grammar where
  flags := [listFlag "relation" none, numberFlag "max-depth" none]
  positionals := [⟨"FROM", .text⟩, ⟨"TO", .text⟩]
  required := ["FROM", "TO"]

/-- The grammar of the impact command. -/
def impactGrammar : Grammar where
  flags :=
    [numberFlag "max-depth" none, numberFlag "max-nodes" none, ⟨"forward", none, .switch⟩]
  positionals := [⟨"TARGET", .text⟩]
  required := ["TARGET"]

/-- The grammar of the import command. -/
def importGrammar : Grammar where
  flags := [textFlag "repo" (some 'r'), textFlag "prefix" (some 'p')]
  positionals := [⟨"FILE", .path⟩]
  required := ["FILE"]
  requires := [("prefix", "repo")]

/-- The grammar of the tag command. -/
def tagGrammar : Grammar where
  flags := [textFlag "repo" (some 'r'), textFlag "prefix" (some 'p')]
  required := ["repo"]

/-- The grammar of a command without flags of its own. -/
def plainGrammar : Grammar where
  flags := []

/-- The commands by the words that start them. -/
def grammars : List (String × Grammar) :=
  [("stats", plainGrammar), ("query", queryGrammar), ("traverse", traverseGrammar),
   ("path", pathGrammar), ("impact", impactGrammar), ("cycles", plainGrammar),
   ("import", importGrammar), ("tag", tagGrammar)]

/-- The grammar of what stands before the command. -/
def rootGrammar : Grammar where
  flags := []
  commands := "help" :: grammars.map (·.1)

/-! ### Commands from what is given -/

/-- The kinds of facts in a list. -/
def factKinds (given : Given) (name : String) : List FactKind := (given.values name).map .mk

/-- The kinds of relations in a list. -/
def relationKinds (given : Given) (name : String) : List RelationKind :=
  (given.values name).map .mk

/-- The value of something that has to be given. -/
def text (given : Given) (name : String) : String := (given.value? name).getD ""

/-- The query that is asked for. -/
def queryOf (given : Given) : Query :=
  { kinds := factKinds given "kind"
    files := given.values "file"
    fileStart := given.value? "file-prefix"
    name := given.value? "name"
    names := given.values "exact-name"
    repo := given.value? "repo"
    relationKind := (given.value? "relation").map .mk
    propKey := given.value? "prop"
    propText := given.value? "value"
    offset := (given.number? "offset").getD 0
    limit := (given.number? "limit").getD 0 }

/-- The command that a word starts. -/
def commandOf (word : String) (given : Given) : Option Command :=
  match word with
  | "stats" => some .stats
  | "query" => some (.query (queryOf given))
  | "traverse" => some <| .traverse
    { start := text given "START"
      direction := if given.value? "direction" = some "reverse" then .reverse else .forward
      relationKinds := relationKinds given "relation"
      nodeKinds := factKinds given "node-kind"
      maxDepth := given.number? "max-depth"
      maxNodes := given.number? "max-nodes" }
  | "path" => some <| .path
    { source := text given "FROM"
      goal := text given "TO"
      relationKinds := relationKinds given "relation"
      maxDepth := given.number? "max-depth" }
  | "impact" => some <| .impact
    { target := text given "TARGET"
      maxDepth := given.number? "max-depth"
      maxNodes := given.number? "max-nodes"
      includeForward := given.has "forward" }
  | "cycles" => some .cycles
  | "import" => some <| .importFile
    { file := text given "FILE", repo := given.value? "repo", path := given.value? "prefix" }
  | "tag" => some (.tag (text given "repo") (text given "prefix"))
  | _ => none

/-- The answer to the words after `help`: help for one command or for all of them. -/
def helpFor : List String → UsageError
  | [] => .help
  | [word] => if rootGrammar.commands.contains word then .help else .unknownCommand
  | _ => .unknownCommand

/-- Reads the words of a command, the first of which names it. -/
def parseCommand (word : String) (rest : List String) : Except UsageError (Given × Command) := do
  if word = "help" then .error (helpFor rest)
  match grammars.lookup word with
  | none => .error .unknownCommand
  | some grammar =>
    let (s, _) ← Scan.start.readWords grammar.withCommon rest
    let s ← s.settle
    grammar.validate s.given
    match commandOf word s.given with
    | some command => return (s.given, command)
    | none => .error .unknownCommand

/-- Reads a command line. -/
def parse (words : List String) : Except UsageError Invocation := do
  let (s, rest) ← Scan.start.readWords rootGrammar.withCommon words
  match rest with
  | [] =>
    let s ← s.settle
    .error (if s.given.isEmpty then .nothingGiven else .missingCommand)
  | word :: rest =>
    let (inner, command) ← parseCommand word rest
    let s ← s.settle
    return { config := (inner.value? "config").or (s.given.value? "config")
             data := (inner.value? "data").or (s.given.value? "data")
             command }

end ArchFacts.CommandLine
