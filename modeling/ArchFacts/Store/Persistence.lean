import ArchFacts.Failure
import ArchFacts.Fact.Decoder
import ArchFacts.Fact.Writer
import ArchFacts.Records.Writer
import ArchFacts.Store.Basic

/-!
# Keeping a store in a file

A store is kept as records, one fact a line, in the order of the facts. What is read is read to its
end before any fact is added, so a store is never left with a part of a file. What is saved is
staged in a file beside the target and then moved over it, so the target never holds a part of a
store; if either step fails, the staged file is removed and the target is as before.
-/

namespace ArchFacts.Store

open Directory

/-- The facts as records. -/
def writeRecords (s : Store) : List Char := Records.write Fact.write s.facts

/-- The facts as the contents of a file. -/
def contents (s : Store) : List UInt8 := Records.writeBytes Fact.write s.facts

/-- Adds the facts of a stream and tells their positions. -/
def readRecords (s : Store) (bytes : List UInt8) : Except Failure (Store × Span) :=
  match Records.read Fact.read bytes with
  | .ok facts => .ok (s.add facts)
  | .error error => .error (.stream error)

/-- The facts in a file. -/
def factsIn (tree : Tree) (path : String) : Except Failure (List Fact) :=
  match tree.readBytes path with
  | .ok bytes => (Records.read Fact.read bytes).mapError (.ofFile path)
  | .error fault => .error (.access path fault)

/-- Adds the facts in a file and tells their positions. -/
def load (s : Store) (tree : Tree) (path : String) : Except Failure (Store × Span) :=
  (factsIn tree path).map s.add

/-- The store of the facts in a file. -/
def openFile (tree : Tree) (path : String) : Except Failure Store :=
  (factsIn tree path).map empty.pushAll

/-- The tree without a file that may be there. -/
def discard (tree : Tree) (path : String) : Tree :=
  match tree.removeFile path with
  | .ok tree => tree
  | .error _ => tree

/-- Saves the facts in a file. -/
def save (s : Store) (tree : Tree) (path : String) : Except Failure Unit × Tree :=
  let staging := Path.staging path
  match tree.writeBytes staging s.contents with
  | .error fault => (.error (.access path fault), discard tree staging)
  | .ok staged => match staged.moveFile staging path with
    | .error fault => (.error (.access path fault), discard staged staging)
    | .ok saved => (.ok (), saved)

end ArchFacts.Store
