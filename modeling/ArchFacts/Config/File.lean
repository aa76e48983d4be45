import ArchFacts.Config.Decoder
import ArchFacts.Config.Writer
import ArchFacts.Failure

/-!
# Configuration files

A configuration is loaded from its file, or taken as the standard one where there is no file, and
saved with the directories above its file.
-/

namespace ArchFacts.Config

open Directory

/-- The configuration in a file. -/
def load (tree : Tree) (path : String) : Except Failure Config :=
  match tree.readText path with
  | .error fault => .error (.access path fault)
  | .ok text => match read text with
    | some config => .ok config
    | none => .error (.configuration path)

/-- The configuration in a file, or the standard one if there is no file. -/
def loadOrStandard (tree : Tree) (path : String) : Except Failure Config :=
  match tree.exists? path with
  | .ok true => load tree path
  | .ok false => .ok standard
  | .error fault => .error (.access path fault)

/-- Saves a configuration in a file, and makes the directories above it. -/
def save (config : Config) (tree : Tree) (path : String) : Except Failure Unit × Tree :=
  match tree.makeDirectories (Path.above path) with
  | (.error fault, tree) => (.error (.access (Path.above path) fault), tree)
  | (.ok (), tree) =>
    match tree.writeBytes path (Text.Utf8.encode config.write) with
    | .error fault => (.error (.access path fault), tree)
    | .ok saved => (.ok (), saved)

end ArchFacts.Config
