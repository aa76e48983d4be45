import ArchFacts.Json.Value

/-!
# Tokens of a JSON text

The text is read one character at a time: `Reading.step` takes what is being read and a character
to what is being read next and the tokens that this completes, and `Reading.finish` says what the
end of the text makes of an unfinished token. So `tokens` is defined for every text, a token is
never looked at twice, and what comes after the first fault is not looked at at all.

Some texts are JSON by their shape and still have no value: a string with half a surrogate pair, a
number beyond every double. Shape is all that matters where a value is passed over, so strings are
kept as `Quoted` pieces, and such a number is a token of its own.
-/

namespace ArchFacts.Json

/-- Why a text is no JSON: it ends too early, or it breaks the grammar where it stands. -/
inductive Fault where
  | ended
  | malformed
  deriving DecidableEq, Repr, Inhabited

/-- What stands in a string: a character, or one half of a character given by its number. -/
inductive Piece where
  | char (c : Char)
  | unit (n : Nat)
  deriving DecidableEq, Repr

/-- A string as it is written, up to its closing quote or to the fault that keeps it open. -/
structure Quoted where
  pieces : List Piece
  cut : Option Fault
  deriving DecidableEq, Repr

/-- A number: an integer of at most 64 bits, or a double. -/
inductive Number where
  | int (n : Int)
  | float (x : Decimal.Binary64)
  deriving DecidableEq, Repr

/-- The least part of a text that the grammar knows. -/
inductive Token where
  | openArray
  | closeArray
  | openObject
  | closeObject
  | comma
  | colon
  | null
  | bool (b : Bool)
  | string (s : Quoted)
  | number (n : Number)
  /-- A number beyond the greatest double. -/
  | tooLarge
  /-- A number that lacks the digit the text ends before. -/
  | cutNumber
  /-- What no token begins or goes on with. -/
  | bad (f : Fault)
  deriving DecidableEq, Repr

/-! ## Numbers -/

/-- How far a number has been read. -/
inductive Place where
  | minus
  | zero
  | whole
  | point
  | fraction
  | mark
  | markSign
  | exponent
  deriving DecidableEq, Repr

/-- A number while it is read, the digits in reverse. -/
structure Numeral where
  place : Place
  negative : Bool
  whole : List Nat
  fraction : List Nat
  exponentNegative : Bool
  exponent : Nat
  deriving DecidableEq, Repr

/-- A number of which nothing but its sign is known. -/
def Numeral.start (negative : Bool) : Numeral :=
  ⟨.minus, negative, [], [], false, 0⟩

/-- The value of a decimal digit. -/
def digit? (c : Char) : Option Nat :=
  if '0' ≤ c ∧ c ≤ '9' then some (c.toNat - '0'.toNat) else none

/-- What a character does to a number: it goes on, it is complete before the character, or it
cannot be. -/
inductive Progress where
  | more (n : Numeral)
  | complete
  | broken
  deriving DecidableEq, Repr

/-- What the mark of a fraction or an exponent does to a number that may have either. -/
def Numeral.mark (n : Numeral) (fractionAllowed : Bool) (c : Char) : Progress :=
  if c = '.' ∧ fractionAllowed then .more { n with place := .point }
  else if c = 'e' ∨ c = 'E' then .more { n with place := .mark }
  else .complete

/-- Goes on reading a number. A whole part has no zero in front, and a digit follows the minus, the
point and the mark of the exponent. -/
def Numeral.step (n : Numeral) (c : Char) : Progress :=
  match n.place, digit? c with
  | .minus, some 0 => .more { n with place := .zero, whole := [0] }
  | .minus, some d => .more { n with place := .whole, whole := [d] }
  | .minus, none => .broken
  | .zero, some _ => .broken
  | .zero, none => n.mark true c
  | .whole, some d => .more { n with whole := d :: n.whole }
  | .whole, none => n.mark true c
  | .point, some d => .more { n with place := .fraction, fraction := [d] }
  | .point, none => .broken
  | .fraction, some d => .more { n with fraction := d :: n.fraction }
  | .fraction, none => n.mark false c
  | .mark, some d => .more { n with place := .exponent, exponent := d }
  | .mark, none =>
    if c = '+' then .more { n with place := .markSign }
    else if c = '-' then .more { n with place := .markSign, exponentNegative := true }
    else .broken
  | .markSign, some d => .more { n with place := .exponent, exponent := d }
  | .markSign, none => .broken
  | .exponent, some d => .more { n with exponent := 10 * n.exponent + d }
  | .exponent, none => .complete

/-- Whether a number may end here. -/
def Numeral.isComplete (n : Numeral) : Bool :=
  match n.place with
  | .zero | .whole | .fraction | .exponent => true
  | .minus | .point | .mark | .markSign => false

/-- The greatest significand: digits beyond it are not gathered. -/
def greatestSignificand : Nat := UInt64.size - 1

/-- Gathers digits into a significand while they fit, and gives the digits left over. -/
def gather (significand : Nat) : List Nat → Nat × List Nat
  | [] => (significand, [])
  | d :: rest =>
    if 10 * significand + d ≤ greatestSignificand then gather (10 * significand + d) rest
    else (significand, d :: rest)

/-- The number that is written: an integer if it has neither fraction nor exponent and fits 64 bits,
else a double, which may be too large. Minus zero is a double. -/
def Numeral.value (n : Numeral) : Option Number :=
  let (whole, left) := gather 0 n.whole.reverse
  let (significand, unused) := gather whole n.fraction.reverse
  let places : Int := left.length - (n.fraction.length - unused.length : Nat)
  let exponent : Int := if n.exponentNegative then -n.exponent else n.exponent
  let isInteger := n.fraction.isEmpty && n.place != .exponent && left.isEmpty
  if isInteger && !n.negative then some (.int whole)
  else if isInteger && whole != 0 && 2 * whole ≤ UInt64.size then some (.int (-whole))
  else (Decimal.Binary64.ofDecimal n.negative significand (places + exponent)).map .float

/-- The token of a complete number. -/
def Numeral.token (n : Numeral) : Token :=
  match n.value with
  | some number => .number number
  | none => .tooLarge

/-! ## Reading -/

/-- What is being read. -/
inductive Reading where
  | between
  /-- A string, its pieces in reverse. -/
  | string (done : List Piece)
  /-- A string, after a backslash. -/
  | escaped (done : List Piece)
  /-- A string, inside a character given by its number: the bytes so far, and what they give if they
  all are digits. -/
  | numbered (done : List Piece) (bytes : Nat) (code : Option Nat)
  | number (n : Numeral)
  /-- A word, of which these letters are still to come. -/
  | word (letters : List Char) (token : Token)
  /-- A fault was met. -/
  | stopped
  deriving Repr

/-- The value of a hexadecimal digit. -/
def hexDigit? (c : Char) : Option Nat :=
  if '0' ≤ c ∧ c ≤ '9' then some (c.toNat - '0'.toNat)
  else if 'a' ≤ c ∧ c ≤ 'f' then some (c.toNat - 'a'.toNat + 10)
  else if 'A' ≤ c ∧ c ≤ 'F' then some (c.toNat - 'A'.toNat + 10)
  else none

/-- The character that a letter after a backslash stands for. -/
def unescape? (c : Char) : Option Char :=
  match c with
  | '"' => some '"'
  | '\\' => some '\\'
  | '/' => some '/'
  | 'b' => some '\x08'
  | 'f' => some '\x0c'
  | 'n' => some '\n'
  | 'r' => some '\r'
  | 't' => some '\t'
  | _ => none

/-- The space that may stand between tokens. -/
def isSpace (c : Char) : Bool :=
  c == ' ' || c == '\t' || c == '\n' || c == '\r'

namespace Reading

/-- A string that a fault cuts off. -/
def cutString (done : List Piece) (f : Fault) : Token := .string ⟨done.reverse, some f⟩

/-- What a character between tokens begins or is. -/
def begin (c : Char) : Reading × List Token :=
  if isSpace c then (.between, []) else
  match c with
  | '[' => (.between, [.openArray])
  | ']' => (.between, [.closeArray])
  | '\x7b' => (.between, [.openObject])
  | '\x7d' => (.between, [.closeObject])
  | ',' => (.between, [.comma])
  | ':' => (.between, [.colon])
  | '"' => (.string [], [])
  | 'n' => (.word ['u', 'l', 'l'] .null, [])
  | 't' => (.word ['r', 'u', 'e'] (.bool true), [])
  | 'f' => (.word ['a', 'l', 's', 'e'] (.bool false), [])
  | '-' => (.number (.start true), [])
  | c => match (Numeral.start false).step c with
    | .more n => (.number n, [])
    | _ => (.stopped, [.bad .malformed])

/-- Four bytes give the number of a character; they are taken before they are checked. -/
def stepNumbered (done : List Piece) (bytes : Nat) (code : Option Nat) (c : Char) :
    Reading × List Token :=
  let bytes := bytes + c.utf8Size
  let code := do
    let high ← code
    let low ← hexDigit? c
    return 16 * high + low
  if bytes < 4 then (.numbered done bytes code, [])
  else match code with
    | some n => (.string (.unit n :: done), [])
    | none => (.stopped, [cutString done .malformed])

/-- Reads one character. -/
def step : Reading → Char → Reading × List Token
  | .between, c => begin c
  | .string done, '"' => (.between, [.string ⟨done.reverse, none⟩])
  | .string done, '\\' => (.escaped done, [])
  | .string done, c =>
    if c.toNat < 0x20 then (.stopped, [cutString done .malformed])
    else (.string (.char c :: done), [])
  | .escaped done, 'u' => (.numbered done 0 (some 0), [])
  | .escaped done, c =>
    match unescape? c with
    | some c => (.string (.char c :: done), [])
    | none => (.stopped, [cutString done .malformed])
  | .numbered done bytes code, c => stepNumbered done bytes code c
  | .number n, c =>
    match n.step c with
    | .more n => (.number n, [])
    | .complete => ((begin c).1, n.token :: (begin c).2)
    | .broken => (.stopped, [.bad .malformed])
  | .word [] token, c => ((begin c).1, token :: (begin c).2)
  | .word (letter :: letters) token, c =>
    if c = letter then
      if letters = [] then (.between, [token]) else (.word letters token, [])
    else (.stopped, [.bad .malformed])
  | .stopped, _ => (.stopped, [])

/-- What the end of the text makes of what is being read. -/
def finish : Reading → List Token
  | .between | .stopped => []
  | .string done | .escaped done | .numbered done _ _ => [cutString done .ended]
  | .number n => if n.isComplete then [n.token] else [.cutNumber]
  | .word _ _ => [.bad .ended]

/-- The tokens of a text of which the beginning has been read. -/
def tokens : Reading → List Char → List Token
  | reading, [] => reading.finish
  | reading, c :: rest => (reading.step c).2 ++ tokens (reading.step c).1 rest

end Reading

/-- The tokens of a text. -/
def tokens (text : List Char) : List Token := Reading.between.tokens text

end ArchFacts.Json
