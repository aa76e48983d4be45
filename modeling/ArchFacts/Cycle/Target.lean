import ArchFacts.SlashPath

/-!
# Import targets

What a file imports is written as a target. A classifier says which targets may be modules of the
same code base; `resolve` turns such a target into the name of a module, a relative one as seen from
the directory in which it is written.
-/

namespace ArchFacts.Cycle

/-- Tells the targets that may be modules of the code base. -/
abbrev Classifier := String → Bool

/-- Whether a target is relative: it is, or begins with, the directory itself or the one above. -/
def isRelative (target : List Char) : Bool :=
  match target with
  | ['.'] | ['.', '.'] => true
  | '.' :: '/' :: _ | '.' :: '.' :: '/' :: _ => true
  | _ => false

/-- The classifier by the look of a target: relative ones and those without a dot are internal. A
dot anywhere else is taken for the name of a host. -/
def looksInternal : Classifier := fun target =>
  isRelative target.toList || !target.toList.contains '.'

/-- Follows the segments of a relative path from a directory, both given by segments: an empty
segment and `.` stay where they are, `..` goes up, any other goes down. Nothing is above the
root. -/
def follow (directory : List (List Char)) : List (List Char) → Option (List (List Char))
  | [] => some directory
  | segment :: rest =>
    if segment = [] ∨ segment = ['.'] then follow directory rest
    else if segment = ['.', '.'] then
      if directory = [] then none else follow directory.dropLast rest
    else follow (directory ++ [segment]) rest

/-- The segments of a directory; `.` is the root, which has none. -/
def directorySegments (directory : List Char) : List (List Char) :=
  if directory = ['.'] then [] else (SlashPath.segments directory).filter (· ≠ [])

/-- The text, unless it is empty. -/
def nonempty? (text : List Char) : Option (List Char) :=
  if text = [] then none else some text

/-- The name of the module that a target written in `directory` means, if there can be one. -/
def resolve (directory target : String) : Option String :=
  let path :=
    if isRelative target.toList then
      (follow (directorySegments directory.toList) (SlashPath.segments target.toList)).map
        SlashPath.join
    else some (SlashPath.trimSlashes target.toList)
  (path.bind nonempty?).map String.ofList

end ArchFacts.Cycle
