import ArchFacts.SlashPath

/-!
# Paths of files

A path is a text whose parts, between slashes, are the steps that lead to a place: `.` stays where
it is, `..` goes up, any other part enters what has that name. Empty parts are no steps, but a slash
at the end says that the path leads to a directory.

The directory above a path and the staging path beside it are texts again, and keep the rest of the
path as it is written.
-/

namespace ArchFacts.Directory

/-- A step of a path. -/
inductive Step where
  | stay
  | up
  | enter (name : String)
  deriving DecidableEq, Repr

/-- The step of a part of a path. -/
def Step.ofPart? : List Char → Option Step
  | [] => none
  | ['.'] => some .stay
  | ['.', '.'] => some .up
  | part => some (.enter (String.ofList part))

/-- A path, taken apart. -/
structure Path where
  /-- Whether the path starts at the root, with a slash, and not at the current directory. -/
  absolute : Bool
  steps : List Step
  /-- Whether the path ends in a slash. -/
  slash : Bool
  deriving DecidableEq, Repr

namespace Path

/-- Takes a path apart. -/
def ofText (path : String) : Path where
  absolute := path.toList.head? == some '/'
  steps := (SlashPath.segments path.toList).filterMap Step.ofPart?
  slash := path.toList.getLast? == some '/'

/-- The steps by which a path is told from others. To stay counts only where a relative path starts
with it. -/
def route (path : Path) : List Step :=
  match path.absolute, path.steps with
  | false, .stay :: rest => .stay :: rest.filter (· ≠ .stay)
  | _, steps => steps.filter (· ≠ .stay)

/-- Whether two texts are the same path. The slashes between two steps and at the end can be as many
as one likes. -/
def same (first second : String) : Bool :=
  (ofText first).absolute == (ofText second).absolute
    && (ofText first).route == (ofText second).route

/-- A path, last character first, without the slashes and the `.` parts at its end. -/
def trimReversed : List Char → List Char
  | '/' :: rest => trimReversed rest
  | '.' :: '/' :: rest => trimReversed rest
  | cs => cs

/-- A path without the slashes and the `.` parts at its end. -/
def trim (path : List Char) : List Char := (trimReversed path.reverse).reverse

/-- The directory above a path, as it is written there; the empty text if the path has one part. -/
def above (path : String) : String :=
  match SlashPath.splitLast (trim path.toList) with
  | some (before, _) => match trim before with
    | [] => "/"
    | directory => String.ofList directory
  | none => ""

/-- The name that a path ends in; none if it ends in `.` or `..` or is empty. -/
def fileName? (path : String) : Option String :=
  let last := match SlashPath.splitLast (trim path.toList) with
    | some (_, last) => last
    | none => trim path.toList
  match Step.ofPart? last with
  | some (.enter name) => some name
  | _ => none

/-- The path of a name in a directory. -/
def inside (directory name : String) : String :=
  if directory = "" then name
  else if directory.toList.getLast? = some '/' then directory ++ name
  else directory ++ "/" ++ name

/-- The path beside a file at which its new contents are staged. -/
def staging (path : String) : String :=
  match fileName? path with
  | some name => inside (above path) (name ++ ".tmp")
  | none => inside path ".tmp"

end Path

end ArchFacts.Directory
