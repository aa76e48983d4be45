import ArchFacts.Store.Persistence
import ArchFacts.Store.Tagging

/-!
# The life of a store

Every store comes from the empty one by changes. A change that fails to read its input leaves the
store as it is.
-/

namespace ArchFacts.Store

/-- A change to a store. -/
inductive Change where
  | add (facts : List Fact)
  | readRecords (bytes : List UInt8)
  | load (tree : Directory.Tree) (path : String)
  | tagRange (start : Nat) (repo path : String)
  | tagUntagged (repo path : String)
  | setRepoRange (start : Nat) (repo : String)
  | rebuildGraph
  | clear

/-- The store that was read, or the store as it was. -/
def readOr (s : Store) (result : Except Failure (Store × Span)) : Store :=
  match result with
  | .ok (read, _) => read
  | .error _ => s

/-- Makes a change. -/
def apply (s : Store) : Change → Store
  | .add facts => s.pushAll facts
  | .readRecords bytes => s.readOr (s.readRecords bytes)
  | .load tree path => s.readOr (s.load tree path)
  | .tagRange start repo path => (s.tagRange start repo path).1
  | .tagUntagged repo path => (s.tagUntagged repo path).1
  | .setRepoRange start repo => (s.setRepoRange start repo).1
  | .rebuildGraph => s.rebuildGraph
  | .clear => empty

/-- Makes changes, one after the other. -/
def run (s : Store) (changes : List Change) : Store := changes.foldl apply s

end ArchFacts.Store
