/-!
# The characters of YAML

Gaps stand between words, breaks between lines. Of the many ways to end a line `unifyBreaks` leaves
three: the line feed, and the line and paragraph separators, which keep their own look in a text.
Everything after it counts on that.
-/

namespace ArchFacts.Yaml

/-- Whether a character leaves a gap between words: a space or a tab. -/
def isGap (c : Char) : Bool := c == ' ' || c == '\t'

/-- Whether a character ends a line. -/
def isBreak (c : Char) : Bool := c == '\n' || c == '\u2028' || c == '\u2029'

/-- Whether a word ends here: before a gap, a line break or the end of the text. -/
def endsWord : List Char → Bool
  | [] => true
  | c :: _ => isGap c || isBreak c

/-- Whether a character can stand in the name of an anchor, a directive or a tag handle. -/
def isNameChar (c : Char) : Bool := c.isAlphanum || c == '_' || c == '-'

/-- The characters that structure a flow collection. -/
def flowIndicators : List Char := [',', '[', ']', '\x7b', '\x7d']

/-- The characters that do not start a plain scalar. -/
def indicators : List Char :=
  flowIndicators ++ ['#', '&', '*', '!', '|', '>', '\x27', '"', '%', '@', '\x60']

/-- Whether three times a mark stands here as a word of its own. At the start of a line that is
where a document starts or ends. -/
def isMarkOf (mark : Char) : List Char → Bool
  | a :: b :: c :: rest => a == mark && b == mark && c == mark && endsWord rest
  | _ => false

/-- Whether a mark stands here that starts or ends a document. -/
def isMark (cs : List Char) : Bool := isMarkOf '-' cs || isMarkOf '.' cs

/-! ### Numbers -/

/-- The value of a digit in any base up to 16. -/
def digitValue? (base : Nat) (c : Char) : Option Nat :=
  let value :=
    if '0' ≤ c ∧ c ≤ '9' then c.toNat - 48
    else if 'a' ≤ c ∧ c ≤ 'f' then c.toNat - 87
    else if 'A' ≤ c ∧ c ≤ 'F' then c.toNat - 55
    else base
  if value < base then some value else none

/-- The number that some digits stand for; there has to be one at least. -/
def digits? (base : Nat) (cs : List Char) : Option Nat :=
  if cs = [] then none
  else cs.foldlM (fun n c => (digitValue? base c).map (base * n + ·)) 0

/-! ### Whole texts -/

/-- Whether a text may hold a character. -/
def isAllowed (c : Char) : Bool :=
  c == '\t' || c == '\n' || ('\x20' ≤ c && c ≤ '\x7e') || ('\u00a0' ≤ c && c.toNat ≤ 0xFFFD)
    || 0x10000 ≤ c.toNat

/-- A text with the line feed instead of the breaks that have no look of their own: the carriage
return, alone or before a line feed, and the next-line character. -/
def unifyBreaks : List Char → List Char
  | [] => []
  | '\r' :: '\n' :: rest => '\n' :: unifyBreaks rest
  | c :: rest => (if c = '\r' ∨ c = '\u0085' then '\n' else c) :: unifyBreaks rest

end ArchFacts.Yaml
