import ArchFacts.Yaml.Cursor

/-!
# Block scalars

A block scalar is made of the lines behind its bar, or its angle if they are to be folded, as far as
they are indented. The indentation can be stated behind the bar, and is otherwise that of the first
line which is not blank; what is beyond it belongs to the text. Another mark behind the bar says
what becomes of the line breaks at the end.
-/

namespace ArchFacts.Yaml

/-- A line, and the break at its end, if there is one. -/
structure Line where
  text : List Char
  ending : Option Char
  deriving DecidableEq, Repr

/-- The lines of a text. -/
def Line.ofText : List Char → List Line
  | [] => []
  | c :: rest =>
    if isBreak c then ⟨[], some c⟩ :: ofText rest
    else match ofText rest with
      | first :: others => { first with text := c :: first.text } :: others
      | [] => [⟨[c], none⟩]

/-- The text of some lines. -/
def Line.join (lines : List Line) : List Char := lines.flatMap fun l => l.text ++ l.ending.toList

/-! ### The marks -/

/-- What becomes of the line breaks at the end of a block. -/
inductive Chomping where
  | strip
  | clip
  | keep
  deriving DecidableEq, Repr

/-- The mark that says what becomes of the line breaks at the end, if it stands here. -/
def Chomping.read? (s : Cursor) : Option Chomping × Cursor :=
  match s.rest with
  | '-' :: _ => (some .strip, s.skip 1)
  | '+' :: _ => (some .keep, s.skip 1)
  | _ => (none, s)

/-- The digit that states an indentation, if it stands here. It is not zero. -/
def statedIndent? (s : Cursor) : Option (Option Nat × Cursor) :=
  match s.rest with
  | c :: _ =>
    if c = '0' then none
    else if c.isDigit then some (some (c.toNat - 48), s.skip 1)
    else some (none, s)
  | [] => some (none, s)

/-- The marks behind the bar of a block, in either order. -/
def blockMarks? (s : Cursor) : Option (Chomping × Option Nat × Cursor) := do
  let (first, s) := Chomping.read? s
  let (indent, s) ← statedIndent? s
  let (second, s) := if first.isSome then (none, s) else Chomping.read? s
  return ((first <|> second).getD .clip, indent, s)

/-! ### The lines -/

/-- The indentation of a block that does not state it: that of its deepest line up to the first one
that is not blank, and at least `least`. A tab does not indent. -/
def detectIndent? (least : Nat) : List Line → Option Nat
  | [] => some least
  | line :: rest =>
    let margin := (line.text.takeWhile (· == ' ')).length
    match line.text.drop margin, line.ending with
    | '\t' :: _, _ => none
    | [], some _ => detectIndent? (max least margin) rest
    | _, _ => some (max least margin)

/-- The lines of a block without their indentation, and the lines after it. Blank lines are empty
now, all others are not. -/
def blockLines? (indent : Nat) : List Line → Option (List Line × List Line)
  | [] => some ([], [])
  | line :: rest =>
    let margin := ((line.text.take indent).takeWhile (· == ' ')).length
    let inside := line.text.drop margin
    if inside = [] ∧ line.ending.isSome ∨ inside ≠ [] ∧ margin = indent then
      (blockLines? indent rest).map fun r => (⟨inside, line.ending⟩ :: r.1, r.2)
    else if inside.head? = some '\t' then none
    else some ([], line :: rest)

/-- The text of the lines of a block, and what stands behind it: the break of the last line that is
not blank, and the breaks of the blank lines. `final` and `blanks` are those before the lines, and
`indented` says that the last line before them starts with a gap. Folding leaves lines that do so as
they are. -/
def blockText (folded : Bool) (final blanks : List Char) (indented : Bool) :
    List Line → List Char × List Char × List Char
  | [] => ([], final, blanks)
  | ⟨[], ending⟩ :: rest => blockText folded final (blanks ++ ending.toList) indented rest
  | ⟨c :: cs, ending⟩ :: rest =>
    let gap :=
      if folded && final == ['\n'] && !indented && !isGap c then
        if blanks.isEmpty then [' '] else blanks
      else final ++ blanks
    let (text, tail) := blockText folded ending.toList [] (isGap c) rest
    (gap ++ c :: cs ++ text, tail)

/-- A text with what is left of the breaks behind it. -/
def Chomping.apply (chomping : Chomping) : List Char × List Char × List Char → List Char
  | (text, final, blanks) => match chomping with
    | .strip => text
    | .clip => text ++ final
    | .keep => text ++ final ++ blanks

/-- The text of a block scalar, from behind its bar on. What holds it is indented by less than
`least`. -/
def block? (folded : Bool) (least : Nat) (s : Cursor) : Option (List Char × Cursor) := do
  let (chomping, stated, s) ← blockMarks? s
  let s ← s.nextLine?
  let lines := Line.ofText s.rest
  let indent ← match stated with
    | some n => some (least - 1 + n)
    | none => detectIndent? (max least 1) lines
  let (inside, after) ← blockLines? indent lines
  return (chomping.apply (blockText folded [] [] false inside),
    ⟨s.line + inside.length, 0, Line.join after⟩)

end ArchFacts.Yaml
