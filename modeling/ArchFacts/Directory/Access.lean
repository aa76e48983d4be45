import ArchFacts.Directory.Path
import ArchFacts.Directory.Tree
import ArchFacts.Text.Utf8

/-!
# Reading and changing a tree

A path is followed step by step: what it goes through has to be there and to be a directory. Then
comes what is done with the place it leads to: reading a file, writing one, moving a file over
another, removing one, making a directory. What cannot be done says why and leaves the tree as it
is; making a directory with those above it may have made some of them before it fails.
-/

namespace ArchFacts.Directory

/-- Why something could not be done with a path. -/
inductive Fault where
  | missing
  | exists
  | notDirectory
  | isDirectory
  /-- The place is the current directory or one above it. -/
  | busy
  /-- A name in the path, or all of it, is longer than it may be. -/
  | tooLong
  /-- The path has a null character in it. -/
  | nullInPath
  /-- The contents are not UTF-8. -/
  | notText
  deriving DecidableEq, Repr

/-- The text of a fault. -/
def Fault.message : Fault → String
  | .missing => "No such file or directory (os error 2)"
  | .exists => "File exists (os error 17)"
  | .notDirectory => "Not a directory (os error 20)"
  | .isDirectory => "Is a directory (os error 21)"
  | .busy => "Device or resource busy (os error 16)"
  | .tooLong => "File name too long (os error 36)"
  | .nullInPath => "file name contained an unexpected NUL byte"
  | .notText => "<invalid utf-8>"

/-- The greatest number of bytes in a name. -/
def greatestName : Nat := 255

/-- The greatest number of bytes in a path. -/
def greatestPath : Nat := 4095

/-- Checks the length of a name. -/
def checkName (name : String) : Except Fault Unit :=
  if greatestName < name.utf8ByteSize then .error .tooLong else .ok ()

/-- Checks what can be seen of a path without following it. -/
def checkPath (path : String) : Except Fault Unit :=
  if path.toList.contains '\x00' then .error .nullInPath
  else if greatestPath < path.utf8ByteSize then .error .tooLong
  else if path = "" then .error .missing
  else .ok ()

namespace Tree

/-- The place of a directory, from a directory on along some steps. -/
def walk (t : Tree) (place : Place) : List Step → Except Fault Place
  | [] => .ok place
  | .stay :: rest => walk t place rest
  | .up :: rest => walk t place.dropLast rest
  | .enter name :: rest => do
    checkName name
    match t.get? (place ++ [name]) with
    | some .directory => walk t (place ++ [name]) rest
    | some (.file _) => .error .notDirectory
    | none => .error .missing

/-- Where a path starts. -/
def start (t : Tree) (path : Path) : Place := if path.absolute then [] else t.current

/-- The place that some steps lead to from a directory on. It need not be taken, but all on the way
to it is there. -/
def follow (t : Tree) (place : Place) (steps : List Step) : Except Fault Place :=
  match steps.getLast? with
  | some (.enter name) => do
    let directory ← t.walk place steps.dropLast
    checkName name
    return directory ++ [name]
  | _ => t.walk place steps

/-- The place that a path leads to. The empty path leads nowhere. -/
def locate (t : Tree) (path : String) : Except Fault Place := do
  checkPath path
  t.follow (t.start (.ofText path)) (Path.ofText path).steps

/-- What stands where a path leads to. -/
def find (t : Tree) (path : String) : Except Fault Entry := do
  let place ← t.locate path
  match t.get? place with
  | none => .error .missing
  | some (.file bytes) =>
    if (Path.ofText path).slash then .error .notDirectory else .ok (.file bytes)
  | some .directory => .ok .directory

/-- Whether something stands where a path leads to. -/
def exists? (t : Tree) (path : String) : Except Fault Bool :=
  match t.find path with
  | .ok _ => .ok true
  | .error .missing => .ok false
  | .error fault => .error fault

/-- The contents of a file. -/
def readBytes (t : Tree) (path : String) : Except Fault (List UInt8) :=
  match t.find path with
  | .ok (.file bytes) => .ok bytes
  | .ok .directory => .error .isDirectory
  | .error fault => .error fault

/-- The contents of a file of text. -/
def readText (t : Tree) (path : String) : Except Fault (List Char) :=
  match t.readBytes path with
  | .ok bytes => match Text.Utf8.decode bytes with
    | some text => .ok text
    | none => .error .notText
  | .error fault => .error fault

/-- Writes a file, a new one or over an old one. A path that ends in a slash is that of a directory,
whatever its last name is. -/
def writeBytes (t : Tree) (path : String) (bytes : List UInt8) : Except Fault Tree := do
  let parsed := Path.ofText path
  if parsed.slash then
    checkPath path
    let _ ← t.walk (t.start parsed) parsed.steps.dropLast
    .error .isDirectory
  else
    let place ← t.locate path
    match t.get? place with
    | some .directory => .error .isDirectory
    | _ => .ok (t.put place (.file bytes))

/-- Removes a file. -/
def removeFile (t : Tree) (path : String) : Except Fault Tree := do
  let place ← t.locate path
  match t.get? place with
  | none => .error .missing
  | some .directory => .error .isDirectory
  | some (.file _) =>
    if (Path.ofText path).slash then .error .notDirectory else .ok (t.erase place)

/-- Moves a file, to a new place or over another file. -/
def moveFile (t : Tree) (source target : String) : Except Fault Tree := do
  let bytes ← t.readBytes source
  let old ← t.locate source
  let new ← t.locate target
  let path := Path.ofText target
  match path.steps.getLast?, t.get? new with
  | some (.enter _), entry =>
    if path.slash then .error .notDirectory
    else if entry = some .directory then .error .isDirectory
    else .ok ((t.erase old).put new (.file bytes))
  | _, _ => .error .busy

/-- Makes a directory where some steps lead to from a directory on. -/
def makeDirectory (t : Tree) (place : Place) (steps : List Step) : Except Fault Tree := do
  let new ← t.follow place steps
  match t.get? new with
  | some _ => .error .exists
  | none => .ok (t.put new .directory)

/-- Whether a directory stands where some steps lead to from a directory on. -/
def hasDirectory (t : Tree) (place : Place) (steps : List Step) : Bool :=
  match t.walk place steps with
  | .ok _ => true
  | .error _ => false

/-- Makes a directory where some steps lead to from a directory on, and before it those on the way
that are missing. The steps are given last one first. -/
def makeDirectoriesUp (t : Tree) (place : Place) : List Step → Except Fault Unit × Tree
  | [] => (.ok (), t)
  | step :: above =>
    let steps := (step :: above).reverse
    match t.makeDirectory place steps with
    | .ok t => (.ok (), t)
    | .error .missing =>
      match makeDirectoriesUp t place above with
      | (.error fault, t) => (.error fault, t)
      | (.ok (), t) => match t.makeDirectory place steps with
        | .ok t => (.ok (), t)
        | .error fault => (if t.hasDirectory place steps then .ok () else .error fault, t)
    | .error fault => (if t.hasDirectory place steps then .ok () else .error fault, t)

/-- Makes a directory where a path leads to, and before it those on the way that are missing. One
that is there already will do, and so will the empty path. -/
def makeDirectories (t : Tree) (path : String) : Except Fault Unit × Tree :=
  if path = "" then (.ok (), t)
  else match checkPath path with
    | .error fault => (.error fault, t)
    | .ok () => t.makeDirectoriesUp (t.start (.ofText path)) (Path.ofText path).steps.reverse

end Tree

end ArchFacts.Directory
