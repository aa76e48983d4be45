/-!
# Double-precision numbers

A finite double is a sign and a size, and the size is `significand * 2 ^ exponent` with a
significand below 2^53. Everything is computed on natural numbers: `Size.ofQuotient` rounds any
quotient to the nearest size, a half to the even significand, and the operations are that rounding
of the exact result.

`ofDecimal` gives the double that a decimal text stands for. It is the two-step rule that readers of
decimal texts use when speed matters more than the last bit: the digits, as many as fit 64 bits, are
rounded to a size, which is then multiplied or divided by the size nearest to the power of ten. Up
to 2^53 and 10^22 both steps are exact but one, and the result is the nearest double.
-/

namespace ArchFacts.Decimal

/-- The size of a finite double: `significand * 2 ^ exponent`. -/
structure Size where
  significand : Nat
  exponent : Int
  deriving DecidableEq, Repr, Inhabited

namespace Size

/-- The least exponent, that of the subnormal sizes and of zero. -/
def leastExponent : Int := -1074

/-- The greatest exponent of a finite double. -/
def greatestExponent : Int := 971

/-- The size 0. -/
def zero : Size := ⟨0, leastExponent⟩

/-- The numerator and the denominator of a size. -/
def quotient (x : Size) : Nat × Nat :=
  (x.significand * Nat.pow 2 x.exponent.toNat, Nat.pow 2 (-x.exponent).toNat)

/-- The exponent that leaves `num / den` a significand of 53 bits, or the least one if that is
greater. -/
def exponentOf (num den : Nat) : Int :=
  let guess : Int := num.log2 - den.log2 - 52
  let below := num * Nat.pow 2 (-(guess + 52)).toNat < den * Nat.pow 2 (guess + 52).toNat
  max leastExponent (if below then guess - 1 else guess)

/-- The natural number nearest to `num / den`, a half going to the even neighbour. -/
def nearest (num den : Nat) : Nat :=
  let floor := num / den
  let rest := 2 * (num % den)
  if den < rest ∨ (den = rest ∧ floor % 2 = 1) then floor + 1 else floor

/-- The size nearest to `num / den`, a half going to the even significand; nothing if that is
beyond the greatest size. -/
def ofQuotient (num den : Nat) : Option Size :=
  if num = 0 then some zero else
    let e := exponentOf num den
    let m := nearest (num * Nat.pow 2 (-e).toNat) (den * Nat.pow 2 e.toNat)
    let x : Size := if m = Nat.pow 2 53 then ⟨Nat.pow 2 52, e + 1⟩ else ⟨m, e⟩
    if greatestExponent < x.exponent then none else some x

/-- The rounded product of two sizes. -/
def mul (x y : Size) : Option Size :=
  ofQuotient (x.quotient.1 * y.quotient.1) (x.quotient.2 * y.quotient.2)

/-- The rounded quotient of two sizes, the second one not 0. -/
def div (x y : Size) : Option Size :=
  ofQuotient (x.quotient.1 * y.quotient.2) (x.quotient.2 * y.quotient.1)

/-- The size nearest to `10 ^ n`. -/
def powTen (n : Nat) : Option Size := ofQuotient (Nat.pow 10 n) 1

/-- The greatest power of ten that is a double, up to rounding. -/
def greatestPowTen : Nat := 308

/-- The size `x`, moved by `e` decimal places in steps that each stay within the powers of ten a
double can hold. -/
def shift (x : Size) (e : Int) : Option Size :=
  if e.natAbs ≤ greatestPowTen then do
    let p ← powTen e.natAbs
    if 0 ≤ e then x.mul p else x.div p
  else if x.significand = 0 then some x
  else if 0 ≤ e then none
  else do
    let p ← powTen greatestPowTen
    let y ← x.div p
    y.shift (e + greatestPowTen)
termination_by e.natAbs
decreasing_by simp only [greatestPowTen] at *; omega

end Size

/-- A finite double. -/
structure Binary64 where
  negative : Bool
  size : Size
  deriving DecidableEq, Repr, Inhabited

namespace Binary64

/-- The double 1. -/
def one : Binary64 := ⟨false, ⟨Nat.pow 2 52, -52⟩⟩

/-- Whether two doubles are the same number. The two zeros are. -/
def equal (x y : Binary64) : Bool :=
  x.size = y.size && (x.negative == y.negative || x.size.significand == 0)

/-- The double that `significand * 10 ^ exponent` is read as, for a significand of 64 bits; nothing
if it is beyond the greatest double. -/
def ofDecimal (negative : Bool) (significand : Nat) (exponent : Int) : Option Binary64 := do
  let x ← Size.ofQuotient significand 1
  let size ← x.shift exponent
  return ⟨negative, size⟩

end Binary64

end ArchFacts.Decimal
