import ArchFacts.Yaml.Character

/-!
# What plain scalars mean

A plain scalar can be read as nothing, as a truth value, as an integer or as a floating-point
number, and is a text otherwise. A written text that would be read as one of these has to stand in
quotes.
-/

namespace ArchFacts.Yaml

/-- The spellings of nothing. -/
def nullWords : List String := ["null", "Null", "NULL", "~"]

/-- The spellings of the truth values. -/
def boolWords : List String := ["true", "True", "TRUE", "false", "False", "FALSE"]

/-- The spellings of infinity and of what is no number. -/
def floatWords : List String :=
  [".inf", ".Inf", ".INF", "+.inf", "+.Inf", "+.INF", "-.inf", "-.Inf", "-.INF",
   ".nan", ".NaN", ".NAN"]

/-- Whether a text is digits with a zero in front that is not needed: it is no integer. -/
def hasExtraZero : List Char → Bool
  | '0' :: c :: rest => (c :: rest).all Char.isDigit
  | _ => false

/-- The number that a text without a sign stands for: with `0x`, `0o` or `0b` in front in base 16, 8
or 2, else in base 10. -/
def magnitude? : List Char → Option Nat
  | '0' :: 'x' :: rest => digits? 16 rest
  | '0' :: 'o' :: rest => digits? 8 rest
  | '0' :: 'b' :: rest => digits? 2 rest
  | cs => if hasExtraZero cs then none else digits? 10 cs

/-- The number that a text stands for which may have a plus sign. -/
def natural? : List Char → Option Nat
  | '+' :: rest => magnitude? rest
  | cs => magnitude? cs

/-- Whether a text is an integer of at most 128 bits. -/
def isInteger : List Char → Bool
  | '-' :: rest => (magnitude? rest).any (· ≤ Nat.pow 2 127)
  | cs => (natural? cs).any (· < Nat.pow 2 128)

/-- A text without a sign that may stand in front. -/
def dropSign : List Char → List Char
  | '+' :: rest => rest
  | '-' :: rest => rest
  | cs => cs

/-- The exponent in a decimal fraction, `e` or `E` and digits that may have a sign; 0 if there is
none. -/
def exponent? : List Char → Option Int
  | [] => some 0
  | c :: rest =>
    if c = 'e' ∨ c = 'E' then
      (digits? 10 (dropSign rest)).map fun n => if rest.head? = some '-' then -(n : Int) else n
    else none

/-- The decimal fraction that a text without a sign stands for, as a whole number and the power of
ten it is multiplied by. -/
def decimal? (cs : List Char) : Option (Nat × Int) := do
  let whole := cs.takeWhile Char.isDigit
  let rest := cs.dropWhile Char.isDigit
  let fraction := if rest.head? = some '.' then rest.tail.takeWhile Char.isDigit else []
  let rest := if rest.head? = some '.' then rest.tail.dropWhile Char.isDigit else rest
  let significand ← digits? 10 (whole ++ fraction)
  let exponent ← exponent? rest
  return (significand, exponent - fraction.length)

/-- The least number that is too large for a double: halfway between the largest double and the
power of two above it. -/
def tooLarge : Nat := Nat.pow 2 1024 - Nat.pow 2 970

/-- Whether a decimal fraction rounds to a double. -/
def fitsDouble (significand : Nat) (exponent : Int) : Bool :=
  let size : Int := (Nat.toDigits 10 significand).length + exponent
  if significand = 0 ∨ size < 300 then true
  else if 320 < size then false
  else if 0 ≤ exponent then significand * Nat.pow 10 exponent.toNat < tooLarge
  else significand < tooLarge * Nat.pow 10 (-exponent).toNat

/-- Whether a text is a floating-point number. -/
def isFloat (cs : List Char) : Bool :=
  floatWords.contains (String.ofList cs)
    || (decimal? (dropSign cs)).any fun d => fitsDouble d.1 d.2

/-- Whether a plain scalar is a text. -/
def isText (cs : List Char) : Bool :=
  cs != [] && !nullWords.contains (String.ofList cs) && !boolWords.contains (String.ofList cs)
    && !isInteger cs && !isFloat cs && !hasExtraZero (dropSign cs)

end ArchFacts.Yaml
