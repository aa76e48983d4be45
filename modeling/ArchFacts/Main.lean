import ArchFacts.CommandLine.Run

/-!
# The program

The files that a command can touch are read into a tree, the command is carried out on the tree, and
what it changed there is written back. Its report goes to the standard output, complaints go to the
standard error.
-/

namespace ArchFacts.CommandLine

open Directory

/-- The places that some steps lead through from a place on. -/
def visited (place : Place) : List Step → List Place
  | [] => []
  | .stay :: rest => visited place rest
  | .up :: rest => visited place.dropLast rest
  | .enter name :: rest => (place ++ [name]) :: visited (place ++ [name]) rest

/-- What differs in a tree from an earlier one, in the order in which it was put there. -/
def differences (before after : Tree) : List (Place × Entry) :=
  after.entries.filter fun entry => before.get? entry.1 != some entry.2

/-- The path of a place. -/
def pathOf (place : Place) : String := "/" ++ "/".intercalate place

/-- What stands at a place of the file system. -/
def entryAt (place : Place) : IO (Option Entry) := do
  let path := (← IO.currentDir) / pathOf place
  if ← path.isDir then return some .directory
  else if ← path.pathExists then return some (.file (← IO.FS.readBinFile path).toList)
  else return none

/-- Adds to a tree what stands where a path leads through. -/
def gather (tree : Tree) (path : String) : IO Tree :=
  let parsed := Path.ofText path
  (visited (tree.start parsed) parsed.steps).foldlM (fun tree place => do
    match ← entryAt place with
    | some entry => return tree.put place entry
    | none => return tree) tree

/-- Writes an entry to the file system; a file is staged beside its place. -/
def writeEntry : Place × Entry → IO Unit
  | (place, .directory) => IO.FS.createDirAll (pathOf place)
  | (place, .file bytes) => do
    let path := pathOf place
    IO.FS.writeBinFile (Path.staging path) (ByteArray.mk bytes.toArray)
    IO.FS.rename (Path.staging path) path

/-- The files that a command names, besides the configuration. -/
def namedFiles (data : String) : Command → List String
  | .importFile command => [data, Path.staging data, command.file]
  | _ => [data, Path.staging data]

/-- What is told about a command line that is not carried out. -/
def UsageError.message : UsageError → String
  | .help | .nothingGiven =>
    "usage: factgraph [--config FILE] [--data FILE] COMMAND\n\n"
      ++ "commands: " ++ ", ".intercalate (grammars.map (·.1))
  | .version => "factgraph"
  | .missingCommand => "error: a command is missing"
  | .unknownCommand => "error: unknown command"
  | .unknownArgument => "error: unexpected argument"
  | .invalidValue => "error: a value is missing or not allowed"
  | .unreadableValue => "error: a value is not a number"
  | .unneededValue => "error: a flag takes no value"
  | .conflict => "error: an argument cannot be used more than once"
  | .missingArgument => "error: a required argument is missing"

/-- Whether help or the version was asked for. -/
def UsageError.isAnswer : UsageError → Bool
  | .help | .version => true
  | _ => false

/-- The text of a failure. -/
def RunError.message (e : RunError) : String :=
  ": ".intercalate (e.context ++ (e.cause.map Failure.message).toList)

/-- Carries out a command on the file system. -/
def runFiles (i : Invocation) : IO (Except RunError Json.Value) := do
  let current := (Path.ofText (← IO.currentDir).toString).steps
  let tree : Tree := { current := (visited [] current).getLast?.getD [], entries := [] }
  let tree ← gather tree (i.config.getD Config.standardPath)
  match Context.load tree i with
  | .error e => return .error e
  | .ok c =>
    let tree ← (namedFiles c.data i.command).foldlM gather tree
    let (result, after) := run i tree
    (differences tree after).forM writeEntry
    return result

/-- Carries out the command on a command line, and gives the exit code. -/
def program (words : List String) : IO UInt32 := do
  match parse words with
  | .error e =>
    if e.isAnswer then
      IO.println e.message
      return 0
    else
      IO.eprintln e.message
      return 2
  | .ok i => match ← runFiles i with
    | .ok report =>
      IO.print (String.ofList (printed report))
      return 0
    | .error e =>
      IO.eprintln ("Error: " ++ e.message)
      return 1

end ArchFacts.CommandLine

/-- The program. -/
def main (words : List String) : IO UInt32 := ArchFacts.CommandLine.program words
