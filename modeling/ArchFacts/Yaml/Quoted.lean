import ArchFacts.Yaml.Cursor
import ArchFacts.Yaml.Fold

/-!
# Quoted scalars

In single quotes every character stands for itself, and two quotes for one. In double quotes a
backslash starts an escape: a letter or digits that stand for a character, or a line break that is
taken away. Lines are folded. No mark of a document may stand inside.

A reader starts behind the opening quote and ends behind the closing one; `gap` is what has been
read since the last word.
-/

namespace ArchFacts.Yaml

/-- Whether a mark of a document stands here, at the start of a line. -/
def markHere (column : Nat) (cs : List Char) : Bool := column == 0 && isMark cs

/-- Puts a word, and the gap before it, in front of the text that has been read behind it. -/
def Gap.before {α : Type} (gap : Gap) (c : Char) (r : List Char × α) : List Char × α :=
  (gap.text ++ c :: r.1, r.2)

/-- The text of a scalar in single quotes. -/
def singleQuoted (gap : Gap) (line column : Nat) : List Char → Option (List Char × Cursor)
  | [] => none
  | '\x27' :: '\x27' :: rest =>
    (singleQuoted .none line (column + 2) rest).map (gap.before '\x27')
  | '\x27' :: rest => some (gap.text, ⟨line, column + 1, rest⟩)
  | c :: rest =>
    if isBreak c then singleQuoted (gap.addBreak c) (line + 1) 0 rest
    else if isGap c then singleQuoted (gap.addGap c) line (column + 1) rest
    else if markHere column (c :: rest) then none
    else (singleQuoted .none line (column + 1) rest).map (gap.before c)

/-- The characters that a letter after a backslash stands for. -/
def letterEscapes : List (Char × Char) :=
  [('0', '\x00'), ('a', '\x07'), ('b', '\x08'), ('t', '\t'), ('\t', '\t'), ('n', '\n'),
   ('v', '\x0b'), ('f', '\x0c'), ('r', '\r'), ('e', '\x1b'), (' ', ' '), ('"', '"'), ('/', '/'),
   ('\\', '\\'), ('N', '\u0085'), ('_', '\u00a0'), ('L', '\u2028'), ('P', '\u2029')]

/-- How many hexadecimal digits follow a letter after a backslash. -/
def digitEscapes : List (Char × Nat) := [('x', 2), ('u', 4), ('U', 8)]

/-- The character that so many hexadecimal digits stand for. -/
def hexChar? (count : Nat) (cs : List Char) : Option Char := do
  if cs.length < count then none
  let n ← digits? 16 (cs.take count)
  if h : n.isValidChar then some (Char.ofNatAux n h) else none

/-- The character that an escape stands for, from behind its backslash on, and how many characters
are taken for it. -/
def escape? : List Char → Option (Char × Nat)
  | [] => none
  | c :: rest => match letterEscapes.lookup c with
    | some char => some (char, 1)
    | none => do
      let count ← digitEscapes.lookup c
      let char ← hexChar? count rest
      return (char, count + 1)

/-- The text of a scalar in double quotes. -/
def doubleQuoted (gap : Gap) (line column : Nat) (cs : List Char) :
    Option (List Char × Cursor) :=
  match cs with
  | [] => none
  | c :: rest =>
    if isBreak c then doubleQuoted (gap.addBreak c) (line + 1) 0 rest
    else if isGap c then doubleQuoted (gap.addGap c) line (column + 1) rest
    else if markHere column (c :: rest) then none
    else if c = '"' then some (gap.text, ⟨line, column + 1, rest⟩)
    else if c ≠ '\\' then
      (doubleQuoted .none line (column + 1) rest).map (gap.before c)
    else if rest.head?.any isBreak then
      (doubleQuoted (.across none []) (line + 1) 0 rest.tail).map fun r => (gap.text ++ r.1, r.2)
    else match escape? rest with
      | some (char, taken) =>
        (doubleQuoted .none line (column + 1 + taken) (rest.drop taken)).map (gap.before char)
      | none => none
termination_by cs.length
decreasing_by all_goals simp; try omega

end ArchFacts.Yaml
