/-!
# `RouteDoc.Decimal.Binary64`: doubles and rounding to them

A finite double is a sign, a mantissa of at most 53 bits and a power of
two. All arithmetic is on natural numbers: a quotient is rounded to the
nearest double, and of two that are equally near to the one with the
even mantissa. A quotient too large for a double has no rounding.

* `roundHalfEven_of_dvd`: an exact quotient is not changed by rounding.
* `roundQuotient_zero`: zero is a double.
-/

set_option autoImplicit false

namespace RouteDoc.Decimal

/-- A finite double without its sign, `mantissa * 2 ^ exponent`. The
exponent is the least for which the mantissa is below `2 ^ 53`, and
never below `-1074`. -/
structure Magnitude where
  mantissa : Nat
  exponent : Int
  deriving DecidableEq, Repr

/-- A finite double. Zero has a sign too. -/
structure Binary64 where
  negative : Bool
  magnitude : Magnitude
  deriving DecidableEq, Repr

/-- The least exponent of a double. -/
def minExponent : Int := -1074

/-- The greatest exponent of a double. -/
def maxExponent : Int := 971

/-- `num / den` as a whole number, rounded to nearest; a half goes to
the even neighbour. -/
def roundHalfEven (num den : Nat) : Nat :=
  let q := num / den
  let twice := 2 * (num % den)
  if twice < den then q else if den < twice then q + 1 else q + q % 2

/-- An exact quotient is not changed by rounding. -/
theorem roundHalfEven_of_dvd {num den : Nat} (hpos : 0 < den) (h : den ∣ num) :
    roundHalfEven num den = num / den := by
  simp [roundHalfEven, Nat.mod_eq_zero_of_dvd h, hpos]

namespace Magnitude

/-- Zero. -/
def zero : Magnitude := ⟨0, minExponent⟩

/-- Whether this is zero. -/
def isZero (x : Magnitude) : Bool := x.mantissa == 0

/-- The numerator of the value as a quotient of natural numbers. -/
def num (x : Magnitude) : Nat := x.mantissa * Nat.pow 2 x.exponent.toNat

/-- The denominator of the value as a quotient of natural numbers. -/
def den (x : Magnitude) : Nat := Nat.pow 2 (-x.exponent).toNat

/-- The double nearest to `num / den`, unless the quotient is too large
for one. -/
def roundQuotient (num den : Nat) : Option Magnitude :=
  if num = 0 then some zero
  else
    -- The quotient lies between `2 ^ 52` and `2 ^ 54` units of this exponent.
    let guess : Int := (num.log2 : Int) - den.log2 - 53
    let atLeast (e : Int) : Bool :=
      Nat.pow 2 53 * den * Nat.pow 2 e.toNat ≤ num * Nat.pow 2 (-e).toNat
    let e := max minExponent (if atLeast guess then guess + 1 else guess)
    let m := roundHalfEven (num * Nat.pow 2 (-e).toNat) (den * Nat.pow 2 e.toNat)
    -- Rounding up may yield one bit more.
    let x : Magnitude := if m = Nat.pow 2 53 then ⟨Nat.pow 2 52, e + 1⟩ else ⟨m, e⟩
    if maxExponent < x.exponent then none else some x

/-- Zero is a double. -/
theorem roundQuotient_zero (den : Nat) : roundQuotient 0 den = some zero := rfl

/-- The double nearest to a product. -/
def mul (x y : Magnitude) : Option Magnitude := roundQuotient (x.num * y.num) (x.den * y.den)

/-- The double nearest to a quotient. -/
def div (x y : Magnitude) : Option Magnitude := roundQuotient (x.num * y.den) (x.den * y.num)

/-- The greatest power of ten that is a double. -/
def maxPowerOfTen : Nat := 308

/-- The double nearest to `10 ^ n`. -/
def powerOfTen (n : Nat) : Magnitude := (roundQuotient (Nat.pow 10 n) 1).getD zero

/-- `x * 10 ^ e`, by way of the double nearest to the power of ten, so
that the result may be one step away from the nearest double. An
exponent below `-308` is taken off in steps of 308. A value other than
zero with an exponent above 308 is too large. -/
def scaleTen (x : Magnitude) (e : Int) : Option Magnitude :=
  if x.isZero then some x
  else if 0 ≤ e then
    if e ≤ maxPowerOfTen then x.mul (powerOfTen e.toNat) else none
  else if -e ≤ maxPowerOfTen then x.div (powerOfTen (-e).toNat)
  else (x.div (powerOfTen maxPowerOfTen)).bind fun y => scaleTen y (e + maxPowerOfTen)
termination_by e.natAbs
decreasing_by simp only [maxPowerOfTen] at *; omega

end Magnitude

/-- Whether `significand * 10 ^ exponent` is small enough to have a
nearest double. -/
def isFinite (significand : Nat) (exponent : Int) : Bool :=
  if significand = 0 then true
  else
    -- The value has this many digits before the point.
    let digits : Int := (Nat.toDigits 10 significand).length + exponent
    if digits ≤ 308 then true
    else if 310 < digits then false
    else (Magnitude.roundQuotient (significand * Nat.pow 10 exponent.toNat)
      (Nat.pow 10 (-exponent).toNat)).isSome

end RouteDoc.Decimal
