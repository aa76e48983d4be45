import ArchFacts.Yaml.Character

/-!
# Points in a text

A cursor is a point in a text: the line and the column in which it stands, and the text from there
on. Columns matter in YAML, so whatever takes something off a text gives the cursor after it.
-/

namespace ArchFacts.Yaml

/-- A point in a text. -/
structure Cursor where
  line : Nat
  column : Nat
  rest : List Char
  deriving DecidableEq, Repr

namespace Cursor

/-- The start of a text. -/
def start (text : List Char) : Cursor := ⟨0, 0, text⟩

/-- The point some characters further on, none of which is a break. -/
def skip (s : Cursor) (count : Nat) : Cursor := ⟨s.line, s.column + count, s.rest.drop count⟩

/-- The point behind a part of the line, given by what comes after it. -/
def upTo (s : Cursor) (after : List Char) : Cursor :=
  ⟨s.line, s.column + (s.rest.length - after.length), after⟩

/-- The point behind all characters of a kind, none of which is a break. -/
def skipWhile (s : Cursor) (kind : Char → Bool) : Cursor := s.upTo (s.rest.dropWhile kind)

/-- The start of the next line, if nothing but gaps and a comment stands before it, or the end of
the text. -/
def nextLine? (s : Cursor) : Option Cursor :=
  let s := s.skipWhile isGap
  let s := if s.rest.head? = some '#' then s.skipWhile (!isBreak ·) else s
  match s.rest with
  | [] => some s
  | c :: rest => if isBreak c then some ⟨s.line + 1, 0, rest⟩ else none

/-- Goes from a point to the next word, over gaps, comments and breaks, and says whether a key may
start there. In a block that is so once a line has ended; and where a key may start, a tab is not a
gap. At the start of a line a byte order mark is passed over. -/
def toWord (flow comment keyAllowed : Bool) (line column : Nat) : List Char → Bool × Cursor
  | [] => (keyAllowed, ⟨line, column, []⟩)
  | c :: rest =>
    if isBreak c then toWord flow false (keyAllowed || !flow) (line + 1) 0 rest
    else if comment || c == ' ' || (c == '\t' && (flow || !keyAllowed)) ||
        (c == '\ufeff' && column == 0) then
      toWord flow comment keyAllowed line (column + 1) rest
    else if c = '#' then toWord flow true keyAllowed line (column + 1) rest
    else (keyAllowed, ⟨line, column, c :: rest⟩)

end Cursor

end ArchFacts.Yaml
