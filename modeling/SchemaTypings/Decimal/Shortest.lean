import SchemaTypings.Decimal.Binary64

/-!
# Shortest decimals

The shortest decimal that is rounded to a given binary value, and of those of that length the
nearest.  The decimals that are rounded to a value form an interval whose ends lie halfway to the
neighbouring values and belong to it when the significand is even.  For one, two, … seventeen
digits the two decimals next to the value are tried; all arithmetic is exact.
-/

namespace SchemaTypings.Decimal

/-- The number of decimal digits of a positive number. -/
def digitCount (n : Nat) : Nat := (Nat.toDigits 10 n).length

/-- The numbers from `low` to `high` in units of `num / den`; the ends belong to them if
`closed`. -/
structure Interval where
  low : Nat
  high : Nat
  closed : Bool
  num : Nat
  den : Nat

/-- The decimals that are rounded to a value, in quarters of its last place. -/
def Binary64.interval (x : Binary64) : Interval where
  low := 4 * x.significand -
    (if x.significand = twoTo 52 ∧ minExponent < x.exponent then 1 else 2)
  high := 4 * x.significand + 2
  closed := x.significand % 2 == 0
  num := twoTo (x.exponent - 2).toNat
  den := twoTo (2 - x.exponent).toNat

/-- Whether `candidate · 10 ^ power` lies in the interval. -/
def Interval.contains (i : Interval) (candidate : Nat) (power : Int) : Bool :=
  let scaled := candidate * (i.den * tenTo power.toNat)
  let low := i.low * i.num * tenTo (-power).toNat
  let high := i.high * i.num * tenTo (-power).toNat
  if i.closed then low ≤ scaled && scaled ≤ high else low < scaled && scaled < high

/-- The power `k` of ten with `10 ^ (k - 1) ≤ num / den < 10 ^ k`. -/
def magnitude (num den : Nat) : Int :=
  if den ≤ num then digitCount (num / den) else 1 - (digitCount ((den - 1) / num) : Int)

/-- Of the two decimals with a last digit at `10 ^ power` next to the value the nearest one in its
interval, if any is; an equally near one is taken if it is even. -/
def Binary64.nearest? (x : Binary64) (power : Int) : Option Nat :=
  let i := x.interval
  let num := 4 * x.significand * i.num * tenTo (-power).toNat
  let den := i.den * tenTo power.toNat
  let below := num / den
  match i.contains below power, i.contains (below + 1) power with
  | true, true => some (roundQuotient num den)
  | true, false => some below
  | false, true => some (below + 1)
  | false, false => none

/-- Moves the zeros at the end of a number into the power of ten, at most `fuel` of them. -/
def dropZeros : Nat → Nat → Int → Nat × Int
  | 0, digits, power => (digits, power)
  | fuel + 1, digits, power =>
    if digits % 10 = 0 then dropZeros fuel (digits / 10) (power + 1) else (digits, power)

/-- The shortest decimal `digits · 10 ^ power` that is rounded to a value other than zero. -/
def Binary64.shortest (x : Binary64) : Nat × Int :=
  let i := x.interval
  let top := magnitude (4 * x.significand * i.num) i.den
  let found := (List.range 17).findSome? fun (n : Nat) =>
    let power : Int := top - (n + 1)
    (x.nearest? power).map fun digits => (digits, power)
  let (digits, power) := found.getD (0, 0)
  dropZeros (digitCount digits) digits power

end SchemaTypings.Decimal
