import ArchFacts.Yaml.Quoted

/-!
# Plain scalars

A plain scalar stands without quotes, and ends where anything else begins: before a colon that ends
a key, before a comment, and in a flow collection before whatever structures it. Its lines are
folded. In a block its further lines have to reach a column, `least`; tabs that start a line have to
do so everywhere.
-/

namespace ArchFacts.Yaml

/-- Whether a plain scalar starts here. `-`, `?` and `:` start one if something follows at once; in
a flow collection the latter two never do. -/
def startsPlain (flow : Bool) : List Char → Bool
  | [] => false
  | '-' :: rest => !endsWord rest
  | '?' :: rest => !flow && !endsWord rest
  | ':' :: rest => !flow && !endsWord rest
  | c :: _ => !isGap c && !isBreak c && !indicators.contains c

/-- Whether a plain scalar ends before a word, which stands in this column behind a gap. -/
def endsBefore (flow : Bool) (least column : Nat) (word : List Char) : Bool :=
  (!flow && column < least) || markHere column word || word.head? == some '#'

/-- Whether a plain scalar ends before these characters, even within a word. -/
def endsWithin (flow : Bool) : List Char → Bool
  | [] => true
  | ':' :: rest => endsWord rest
  | c :: _ => flow && flowIndicators.contains c

/-- Whether a colon stands here that a flow collection does not allow: the end of no word, but
before a sign. -/
def isMisplacedColon : List Char → Bool
  | ':' :: c :: _ => flowIndicators.contains c || c == '?'
  | _ => false

/-- The text of a plain scalar, the gap behind it, and the point behind both. -/
def plain (flow : Bool) (least : Nat) (gap : Gap) (line column : Nat) :
    List Char → Option (List Char × Gap × Cursor)
  | [] => some ([], gap, ⟨line, column, []⟩)
  | c :: rest =>
    if isBreak c then plain flow least (gap.addBreak c) (line + 1) 0 rest
    else if isGap c then
      if c = '\t' ∧ gap.isAcross ∧ column < least then none
      else plain flow least (gap.addGap c) line (column + 1) rest
    else if gap ≠ .none ∧ endsBefore flow least column (c :: rest) then
      some ([], gap, ⟨line, column, c :: rest⟩)
    else if flow && isMisplacedColon (c :: rest) then none
    else if endsWithin flow (c :: rest) then some ([], gap, ⟨line, column, c :: rest⟩)
    else (plain flow least .none line (column + 1) rest).map (gap.before c)

end ArchFacts.Yaml
