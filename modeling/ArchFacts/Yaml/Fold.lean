import ArchFacts.Yaml.Character

/-!
# Folding lines

A plain or quoted scalar may go on in further lines. What stands between two of its words, or at
either end of it, is a gap, and stands for itself within a line. A gap that goes over a line break
folds: a single line feed becomes a space, further breaks stand for themselves without the first,
and the spaces around them count for nothing.
-/

namespace ArchFacts.Yaml

/-- What stands between two words of a scalar. -/
inductive Gap where
  /-- Spaces and tabs. -/
  | within (gaps : List Char)
  /-- Line breaks, the first of which may have been taken away by a backslash. -/
  | across (first : Option Char) (more : List Char)
  deriving DecidableEq, Repr

namespace Gap

/-- Nothing at all. -/
def none : Gap := .within []

/-- The gap with a space or a tab at its end. -/
def addGap (c : Char) : Gap → Gap
  | .within gaps => .within (gaps ++ [c])
  | gap => gap

/-- The gap with a line break at its end. -/
def addBreak (c : Char) : Gap → Gap
  | .within _ => .across (some c) []
  | .across first more => .across first (more ++ [c])

/-- Whether a gap goes over a line break. -/
def isAcross : Gap → Bool
  | .within _ => false
  | .across _ _ => true

/-- What a gap stands for. -/
def text : Gap → List Char
  | .within gaps => gaps
  | .across (some '\n') [] => [' ']
  | .across (some '\n') more => more
  | .across first more => first.toList ++ more

end Gap

end ArchFacts.Yaml
