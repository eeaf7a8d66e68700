/-!
# Binary floating-point values

Finite values with a significand of 53 bits, held exactly as a sign, a significand and a power of
two.  Every operation is exact arithmetic that is rounded once to the nearest value, a tie going to
the even significand; beyond the largest value there is none, below half the least there is zero.
`Binary64.ofDecimal?` takes a decimal in such steps: the value of its digits is multiplied by the
value of a power of ten, or divided by it.
-/

namespace SchemaTypings.Decimal

/-- Two to a power. -/
def twoTo (n : Nat) : Nat := Nat.pow 2 n

/-- Ten to a power. -/
def tenTo (n : Nat) : Nat := Nat.pow 10 n

/-- A finite value `significand · 2 ^ exponent` with a sign, zero included. -/
structure Binary64 where
  negative : Bool
  significand : Nat
  exponent : Int
  deriving DecidableEq, Repr, Inhabited

namespace Binary64

/-- The least exponent of a value. -/
def minExponent : Int := -1074

/-- The greatest exponent of a value. -/
def maxExponent : Int := 971

/-- Zero with a sign. -/
def zero (negative : Bool) : Binary64 := ⟨negative, 0, minExponent⟩

/-- Whether the value is one of the two zeros. -/
def isZero (x : Binary64) : Bool := x.significand == 0

end Binary64

/-- The integer nearest to a quotient; of two equally near the even one. -/
def roundQuotient (num den : Nat) : Nat :=
  let quotient := num / den
  let twice := 2 * (num % den)
  if twice < den then quotient
  else if den < twice then quotient + 1
  else if quotient % 2 = 0 then quotient
  else quotient + 1

/-- The quotient `num / (den · 2 ^ exponent)`, rounded. -/
def roundScaled (num den : Nat) (exponent : Int) : Nat :=
  roundQuotient (num * twoTo (-exponent).toNat) (den * twoTo exponent.toNat)

/-- The greatest `k` with `2 ^ k ≤ num / den`. -/
def floorLog2 (num den : Nat) : Int :=
  let guess : Int := (Nat.log2 num : Int) - Nat.log2 den
  if den * twoTo guess.toNat ≤ num * twoTo (-guess).toNat then guess else guess - 1

namespace Binary64

/-- The value nearest to a quotient, if the quotient is not too large. -/
def ofQuotient? (negative : Bool) (num den : Nat) : Option Binary64 :=
  if num = 0 then some (zero negative)
  else
    let exponent := max (floorLog2 num den - 52) minExponent
    let significand := roundScaled num den exponent
    let (significand, exponent) :=
      if significand = twoTo 53 then (twoTo 52, exponent + 1) else (significand, exponent)
    if maxExponent < exponent then none else some ⟨negative, significand, exponent⟩

/-- The product of two values, rounded. -/
def times? (x y : Binary64) : Option Binary64 :=
  let exponent := x.exponent + y.exponent
  ofQuotient? (x.negative != y.negative) (x.significand * y.significand * twoTo exponent.toNat)
    (twoTo (-exponent).toNat)

/-- The quotient of a value and one that is not zero, rounded. -/
def over? (x y : Binary64) : Option Binary64 :=
  let exponent := x.exponent - y.exponent
  ofQuotient? (x.negative != y.negative) (x.significand * twoTo exponent.toNat)
    (y.significand * twoTo (-exponent).toNat)

/-- The greatest power of ten that has a value. -/
def maxTenPower : Nat := 308

/-- The value nearest to a power of ten. -/
def tenPower? (n : Nat) : Option Binary64 := ofQuotient? false (tenTo n) 1

/-- A value multiplied by a power of ten; by a power that has no value only zero can be
multiplied. -/
def raised? (x : Binary64) (power : Nat) : Option Binary64 :=
  if x.isZero then some x
  else if power ≤ maxTenPower then (tenPower? power).bind x.times?
  else none

/-- A value below `2 ^ 64` divided by a power of ten; a power that has no value divides in two
steps, the second of which takes what is left to zero if the rest of the power has no value
either. -/
def lowered? (x : Binary64) (power : Nat) : Option Binary64 :=
  if power ≤ maxTenPower then (tenPower? power).bind x.over?
  else
    ((tenPower? maxTenPower).bind x.over?).bind fun y =>
      (tenPower? (min (power - maxTenPower) maxTenPower)).bind y.over?

/-- The value of `digits · 10 ^ exponent` for digits below `2 ^ 64`: the digits and the power of ten
are rounded by themselves, and once more when they are joined. -/
def ofDecimal? (negative : Bool) (digits : Nat) (exponent : Int) : Option Binary64 :=
  (ofQuotient? negative digits 1).bind fun x =>
    if 0 ≤ exponent then x.raised? exponent.toNat else x.lowered? (-exponent).toNat

end Binary64

end SchemaTypings.Decimal
