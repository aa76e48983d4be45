import ArchFacts.Decimal.Binary64

/-!
# The shortest text of a double

A double is written with the fewest digits that are nearer to it than to every other double, and of
those with the nearest. `Size.digits` finds them by trying 1, 2, ... digits: if any decimal of that
many digits lies in the interval of the numbers that round to the double, so does one of the two
neighbours of the double itself. `write` lays the digits out.
-/

namespace ArchFacts.Decimal

namespace Size

/-- An interval of positive numbers around a size, all over one denominator. -/
structure Interval where
  low : Nat
  mid : Nat
  high : Nat
  den : Nat
  /-- Whether the two ends belong to the interval. -/
  closed : Bool
  deriving Repr

/-- The numbers that round to a size other than 0, the size itself in the middle. Below a power of
two the sizes lie twice as close. -/
def interval (x : Size) : Interval :=
  let up := Nat.pow 2 x.exponent.toNat
  let narrow := x.significand = Nat.pow 2 52 ∧ leastExponent < x.exponent
  { low := (4 * x.significand - if narrow then 1 else 2) * up
    mid := 4 * x.significand * up
    high := (4 * x.significand + 2) * up
    den := 4 * Nat.pow 2 (-x.exponent).toNat
    closed := x.significand % 2 = 0 }

/-- Whether `n / scale` lies in the interval. -/
def Interval.holds (i : Interval) (n scale : Nat) : Bool :=
  if i.closed then i.low * scale ≤ n * i.den && n * i.den ≤ i.high * scale
  else i.low * scale < n * i.den && n * i.den < i.high * scale

/-- The number of decimal digits of a natural number, one for 0. -/
def digitCount (n : Nat) : Nat := (Nat.toDigits 10 n).length

/-- The `k` with `10 ^ (k - 1) ≤ num / den < 10 ^ k`: for a positive quotient the number of its
digits before the point, and 0 or less for one below 1, by the zeros after the point. -/
def magnitude (num den : Nat) : Int :=
  if den ≤ num then digitCount (num / den) else 1 - digitCount ((den - 1) / num)

/-- Decimal digits as one number, with the place of the point: `0.d₁d₂... * 10 ^ point`. -/
structure Digits where
  value : Nat
  point : Int
  deriving DecidableEq, Repr

/-- The neighbours of the middle among the numbers of `count` digits, where `point` is its
magnitude: the nearer of those in the interval, the even one of two equally near. -/
def Interval.neighbour? (i : Interval) (point : Int) (count : Nat) : Option Nat :=
  let up := Nat.pow 10 (count - point).toNat
  let num := i.mid * up
  let den := i.den * Nat.pow 10 (point - count).toNat
  let floor := num / den
  let scaled : Interval :=
    { i with low := i.low * up, mid := num, high := i.high * up, den := den }
  match scaled.holds floor 1, scaled.holds (floor + 1) 1 with
  | true, true => some (nearest num den)
  | true, false => some floor
  | false, true => some (floor + 1)
  | false, false => none

/-- The digits of the first count from 1 on at which the interval holds a number. Seventeen digits
tell any two doubles apart, so the search ends there. -/
def Interval.shortest (i : Interval) (point : Int) : Option Digits :=
  (List.range' 1 17).findSome? fun count =>
    (i.neighbour? point count).map fun n =>
      if n = Nat.pow 10 count then ⟨1, point + 1⟩ else ⟨n, point⟩

/-- The shortest digits of a size other than 0. -/
def digits (x : Size) : Digits :=
  let i := x.interval
  (i.shortest (magnitude i.mid i.den)).getD ⟨0, 0⟩

end Size

namespace Binary64

/-- A decimal point is written for numbers from `10 ^ leastPoint` up to `10 ^ greatestPoint`. -/
def leastPoint : Int := -5

/-- The greatest number of digits before a written decimal point. -/
def greatestPoint : Int := 16

/-- The digits of a natural number. -/
def natText (n : Nat) : List Char := Nat.toDigits 10 n

/-- Lays out digits: with a point and at least one digit on either side of it, or with an exponent
that always shows its sign. -/
def layOut (d : Size.Digits) : List Char :=
  let text := natText d.value
  let count : Int := text.length
  if leastPoint < d.point ∧ d.point ≤ greatestPoint then
    if d.point ≤ 0 then '0' :: '.' :: (List.replicate (-d.point).toNat '0' ++ text)
    else if count ≤ d.point then
      text ++ List.replicate (d.point - count).toNat '0' ++ ['.', '0']
    else text.take d.point.toNat ++ '.' :: text.drop d.point.toNat
  else
    let e := d.point - 1
    let head := match text with
      | first :: second :: rest => first :: '.' :: second :: rest
      | short => short
    head ++ 'e' :: (if e < 0 then '-' else '+') :: natText e.natAbs

/-- The text of a double. -/
def write (x : Binary64) : List Char :=
  let text := if x.size.significand = 0 then ['0', '.', '0'] else layOut x.size.digits
  if x.negative then '-' :: text else text

end Binary64

end ArchFacts.Decimal
