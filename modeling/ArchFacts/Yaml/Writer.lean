import ArchFacts.Yaml.Meaning
import ArchFacts.Yaml.Plain

/-!
# Writing YAML scalars

A text is written in the first of these ways that reads back as the same text: plain, in single
quotes, in double quotes with escapes. A text with line feeds is written as a literal block if that
is possible. Where a line break stands for itself in a text, the line that it starts is indented.
-/

namespace ArchFacts.Yaml

/-- Whether a character stands for itself outside double quotes. -/
def isPrintable (c : Char) : Bool :=
  c == '\n' || ('\x20' ≤ c && c ≤ '\x7e')
    || ('\u00a0' ≤ c && c != '\ufeff' && c != '\ufffe' && c != '\uffff')

/-- Whether a colon that ends a key or a sign that starts a comment stands in a text. `gap` says
that a gap stands before it. -/
def hasIndicator (gap : Bool) : List Char → Bool
  | [] => false
  | c :: rest =>
    (c == ':' && endsWord rest) || (c == '#' && gap) || hasIndicator (endsWord [c]) rest

/-- Whether a text can stand plain in a block. -/
def canBePlain (cs : List Char) : Bool :=
  startsPlain false cs && !(['-', '-', '-'].isPrefixOf cs || ['.', '.', '.'].isPrefixOf cs)
    && !hasIndicator true cs && cs.getLast? != some ' ' && cs.all fun c =>
      isPrintable c && !isBreak c

/-- Whether a space stands beside a line break. -/
def hasLooseSpace (before : Bool) (after : Bool) : List Char → Bool
  | a :: b :: rest =>
    (before && a == ' ' && isBreak b) || (after && isBreak a && b == ' ')
      || hasLooseSpace before after (b :: rest)
  | _ => false

/-- A text whose lines after the first are indented; `broken` says that a line starts here. -/
def indented (indent : Nat) (broken : Bool) : List Char → List Char
  | [] => []
  | c :: rest =>
    if isBreak c then c :: indented indent true rest
    else (if broken then List.replicate indent ' ' else []) ++ c :: indented indent false rest

/-- A text in single quotes. -/
def writeSingle (indent : Nat) (cs : List Char) : List Char :=
  let margin := if cs.getLast?.any isBreak then List.replicate indent ' ' else []
  let quoted := cs.flatMap fun c => if c = '\x27' then ['\x27', '\x27'] else [c]
  '\x27' :: (indented indent false quoted ++ margin ++ ['\x27'])

/-- The upper-case hexadecimal digits of a number, `count` of them. -/
def hexDigits (count n : Nat) : List Char :=
  let digits := (Nat.toDigits 16 n).map Char.toUpper
  List.replicate (count - digits.length) '0' ++ digits

/-- The letters that stand for characters in double quotes, after a backslash. -/
def writtenEscapes : List (Char × Char) :=
  [('\x00', '0'), ('\x07', 'a'), ('\x08', 'b'), ('\t', 't'), ('\n', 'n'), ('\x0b', 'v'),
   ('\x0c', 'f'), ('\r', 'r'), ('\x1b', 'e'), ('"', '"'), ('\\', '\\'), ('\u0085', 'N'),
   ('\u2028', 'L'), ('\u2029', 'P')]

/-- A character as it stands in double quotes. -/
def writeEscaped (c : Char) : List Char :=
  match writtenEscapes.lookup c with
  | some letter => ['\\', letter]
  | none =>
    if isPrintable c then [c]
    else if c.toNat ≤ 0xFF then '\\' :: 'x' :: hexDigits 2 c.toNat
    else if c.toNat ≤ 0xFFFF then '\\' :: 'u' :: hexDigits 4 c.toNat
    else '\\' :: 'U' :: hexDigits 8 c.toNat

/-- A text in double quotes. -/
def writeDouble (cs : List Char) : List Char :=
  '"' :: (cs.flatMap writeEscaped ++ ['"'])

/-- The marks of the literal block of a text, after its bar: the indentation if the text starts with
a space or a break, and what becomes of the breaks at its end. -/
def writeMarks (indent : Nat) (cs : List Char) : List Char :=
  let final := cs.reverse.takeWhile isBreak
  let stated := if cs.head?.any fun c => c == ' ' || isBreak c then Nat.toDigits 10 indent else []
  let chomping :=
    if final.isEmpty then ['-']
    else if 1 < final.length ∨ final.length = cs.length then ['+']
    else []
  stated ++ chomping

/-- A text as a literal block. -/
def writeLiteral (indent : Nat) (cs : List Char) : List Char :=
  '|' :: (writeMarks indent cs ++ '\n' :: indented indent true cs)

/-- A text as the value of a key; its further lines are indented so much. -/
def writeScalar (indent : Nat) (text : String) : List Char :=
  let cs := text.toList
  if cs.contains '\n' then
    if cs.all isPrintable && cs.getLast? != some ' ' && !hasLooseSpace true false cs then
      writeLiteral indent cs
    else writeDouble cs
  else if isText cs && canBePlain cs then cs
  else if cs.all isPrintable && !hasLooseSpace true true cs then writeSingle indent cs
  else writeDouble cs

/-- A key and a text as its value, on a line of their own. -/
def writeEntry (key text : String) : List Char :=
  let entry := key.toList ++ ':' :: ' ' :: writeScalar 2 text
  if entry.getLast?.any isBreak then entry else entry ++ ['\n']

end ArchFacts.Yaml
