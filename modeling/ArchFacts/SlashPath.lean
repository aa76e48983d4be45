import ArchFacts.Text.Pieces

/-!
# Slash-separated paths

The paths in facts are texts with slashes between their segments. `containingDir` is the directory
of a file, `.` if the path has none, and `parent?` the path one segment up.
-/

namespace ArchFacts.SlashPath

/-- The text before the last slash and the text after it. -/
def splitLast : List Char → Option (List Char × List Char)
  | [] => none
  | c :: rest =>
    match splitLast rest with
    | some (before, after) => some (c :: before, after)
    | none => if c = '/' then some ([], rest) else none

/-- The path one segment up; nothing at the top. -/
def parentChars? (path : List Char) : Option (List Char) :=
  match splitLast path with
  | some (c :: before, _) => some (c :: before)
  | _ => none

theorem length_splitLast {path before after : List Char}
    (h : splitLast path = some (before, after)) : before.length < path.length := by
  induction path generalizing before after with
  | nil => simp [splitLast] at h
  | cons c rest ih =>
    rw [splitLast] at h
    split at h
    · rename_i b a hr
      obtain ⟨rfl, rfl⟩ : c :: b = before ∧ a = after := by simpa using h
      simpa using ih hr
    · split at h
      · obtain ⟨rfl, -⟩ : [] = before ∧ rest = after := by simpa using h
        simp
      · simp at h

theorem length_parentChars? {path parent : List Char}
    (h : parentChars? path = some parent) : parent.length < path.length := by
  rw [parentChars?] at h
  split at h
  · rename_i c before after hs
    obtain rfl : c :: before = parent := by simpa using h
    exact length_splitLast hs
  · simp at h

/-- The path one segment up; nothing at the top. -/
def parent? (path : String) : Option String :=
  (parentChars? path.toList).map String.ofList

/-- The directory that a file is in: everything before its last slash, or `.`. -/
def containingDir (file : String) : String :=
  (parent? file).getD "."

/-- The path without the slashes at its end. -/
def trimSlashes (path : List Char) : List Char :=
  (path.reverse.dropWhile (· == '/')).reverse

/-- The texts between the slashes of a path, the empty ones included. -/
def segments : List Char → List (List Char) := Text.pieces '/'

/-- Segments with a slash between any two. -/
def join : List (List Char) → List Char := Text.joined '/'

end ArchFacts.SlashPath
