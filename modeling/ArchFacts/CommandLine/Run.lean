import ArchFacts.CommandLine.Command
import ArchFacts.Config.File
import ArchFacts.Cycle.Report
import ArchFacts.Graph.Report
import ArchFacts.Store.Change
import ArchFacts.Store.Query

/-!
# Carrying out commands

A command reads the configuration and the file of facts, and reports a JSON value. Only importing
and tagging change anything: they save the facts when all that is to be read has been read, so a
command that fails to read leaves every file as it is.
-/

namespace ArchFacts.CommandLine

open Directory
open Json (Value)

/-- Why a command failed: what was being done, and the failure itself. Where a failure tells nothing
but the answer of the file system, that answer alone is the first part. -/
structure RunError where
  context : List String
  cause : Option Failure
  deriving DecidableEq, Repr

namespace RunError

/-- A failure while nothing in particular was being done. -/
def bare (cause : Failure) : RunError := ⟨[], some cause⟩

/-- A failure while something was being done with a file. -/
def during (doing path : String) (cause : Failure) : RunError :=
  ⟨[doing ++ " " ++ path], some cause⟩

/-- An answer of the file system. -/
def fault (f : Fault) : RunError := ⟨[f.message], none⟩

end RunError

/-- The files of a command. -/
structure Context where
  config : Config
  /-- The file of facts. -/
  data : String
  deriving DecidableEq, Repr

namespace Context

/-- Loads the configuration, and finds the file of facts. -/
def load (tree : Tree) (i : Invocation) : Except RunError Context :=
  match Config.loadOrStandard tree (i.config.getD Config.standardPath) with
  | .ok config => .ok ⟨config, i.data.getD config.dataFile⟩
  | .error cause => .error (.bare cause)

/-- The store of the facts. -/
def openStore (c : Context) (tree : Tree) : Except RunError Store :=
  (Store.openFile tree c.data).mapError (.during "Failed to load facts from" c.data)

/-- The store of the facts; it is empty if there is no file. -/
def openOrEmpty (c : Context) (tree : Tree) : Except RunError Store :=
  match tree.exists? c.data with
  | .ok true => c.openStore tree
  | .ok false => .ok .empty
  | .error fault => .error (.fault fault)

/-- Saves a store in the file of facts, and makes the directories above it. -/
def saveStore (c : Context) (tree : Tree) (store : Store) : Except RunError Unit × Tree :=
  match tree.makeDirectories (Path.above c.data) with
  | (.error fault, tree) => (.error (.fault fault), tree)
  | (.ok (), tree) =>
    let (saved, tree) := store.save tree c.data
    (saved.mapError (.during "Failed to save facts to" c.data), tree)

end Context

/-! ### Reports -/

/-- How many facts of each kind there are, which repositories, how many files, and the size of the
graph. -/
def statsReport (data : String) (store : Store) : Value :=
  .ofPairs
    [("data_file", .string data),
     ("facts", .ofNat store.count),
     ("kinds", .ofPairs (store.kindCounts.map fun c => (c.1.word, .ofNat c.2))),
     ("repos", .ofTexts store.repos),
     ("files", .ofNat store.files.length),
     ("graph", .ofPairs (Graph.build store.facts).sizes)]

/-- The traversal that is asked for, with the ceilings of the configuration where none are. -/
def TraverseCommand.options (c : TraverseCommand) (limits : Ceilings) : TraversalOptions :=
  { direction := c.direction
    relationKinds := c.relationKinds
    nodeKinds := c.nodeKinds
    maxDepth := c.maxDepth.getD limits.maxDepth.toNat
    maxNodes := c.maxNodes.getD limits.maxNodes.toNat }

/-- The analysis that is asked for, with the ceilings of the configuration where none are. -/
def ImpactCommand.options (c : ImpactCommand) (limits : Ceilings) : ImpactOptions :=
  { maxDepth := c.maxDepth.getD limits.maxDepth.toNat
    maxNodes := c.maxNodes.getD limits.maxNodes.toNat
    includeForward := c.includeForward }

/-- The cycles and how many there are. -/
def cyclesReport (store : Store) : Value :=
  let findings := Cycle.detect store.facts Cycle.looksInternal
  .ofPairs
    [("count", .ofNat findings.length),
     ("cycles", .array (findings.map Cycle.Finding.value))]

/-- The report of a command that only reads the store. -/
def report (c : Context) (store : Store) : Command → Value
  | .query q => (store.query q).value
  | .traverse t =>
    ((Graph.build store.facts).traverse t.start (t.options c.config.limits.traverse)).value
  | .path p =>
    ((Graph.build store.facts).findPath p.source p.goal p.relationKinds
      (p.maxDepth.getD c.config.limits.path.maxDepth.toNat)).value
  | .impact i =>
    ((Graph.build store.facts).impact i.target (i.options c.config.limits.impact)).value
  | .cycles => cyclesReport store
  | _ => statsReport c.data store

/-! ### Changes -/

/-- Labels the facts from a position on as the import asks for, and tells how many were labelled. -/
def ImportCommand.label (i : ImportCommand) (store : Store) (start : Nat) : Store × Nat :=
  match i.repo, i.path with
  | some repo, some path => store.tagRange start repo path
  | some repo, none => store.setRepoRange start repo
  | none, _ => (store, 0)

/-- Adds the facts of a file to those of the file of facts. -/
def runImport (c : Context) (tree : Tree) (i : ImportCommand) : Except RunError Value × Tree :=
  match c.openOrEmpty tree with
  | .error e => (.error e, tree)
  | .ok store => match store.load tree i.file with
    | .error cause => (.error (.during "Failed to import" i.file cause), tree)
    | .ok (store, added) =>
      let (store, tagged) := i.label store added.start
      let (saved, tree) := c.saveStore tree store
      (saved.map fun _ => .ofPairs
        [("imported", .ofNat added.length),
         ("tagged", .ofNat tagged),
         ("total", .ofNat store.count)], tree)

/-- Labels the facts that have no label. -/
def runTag (c : Context) (tree : Tree) (repo path : String) : Except RunError Value × Tree :=
  match c.openStore tree with
  | .error e => (.error e, tree)
  | .ok store =>
    let (store, renamed) := store.tagUntagged repo path
    let (saved, tree) := c.saveStore tree store
    (saved.map fun _ => .ofPairs
      [("repo", .string repo),
       ("renamed", .ofNat renamed),
       ("total", .ofNat store.count)], tree)

/-- Carries out a command: its report, and the tree it leaves. -/
def run (i : Invocation) (tree : Tree) : Except RunError Value × Tree :=
  match Context.load tree i with
  | .error e => (.error e, tree)
  | .ok c => match i.command with
    | .importFile command => runImport c tree command
    | .tag repo path => runTag c tree repo path
    | command => ((c.openStore tree).map fun store => report c store command, tree)

/-- The text of a report, one item or field a line. -/
def printed (report : Value) : List Char := report.writeIndented 0 ++ ['\n']

end ArchFacts.CommandLine
