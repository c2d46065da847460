import RouteDoc.Decimal.Binary64

/-!
# `RouteDoc.Decimal.Shortest`: the fewest digits that read back

Of all decimals that are rounded to a given double, `shortest` yields
one with the fewest digits, and of these the nearest to the double; two
that are equally near are told apart by their last digit, which is then
even.

The decimals of one power of ten form a grid. A grid has a point that
is rounded to the double only if one of the two grid points around the
double is, so it is enough to look at these two, from the coarsest grid
to the finest.
-/

set_option autoImplicit false

namespace RouteDoc.Decimal

/-- The number `digits * 10 ^ exponent`. -/
structure Scientific where
  digits : Nat
  exponent : Int
  deriving DecidableEq, Repr

namespace Magnitude

/-- The point of the grid `10 ^ k` that is rounded to `x`, if there is
one: of the two points around `x` the nearer, or the even one.

Everything is counted in quarters of the last binary digit: `x` lies at
`4 * mantissa` quarters, and the numbers that are rounded to it reach
two quarters up and down. Below a power of two the doubles lie closer,
so there they reach down one quarter only. -/
def gridPoint? (x : Magnitude) (k : Int) : Option Nat :=
  let e := x.exponent - 2
  let mid := 4 * x.mantissa
  let low := if x.mantissa = Nat.pow 2 52 ∧ minExponent < x.exponent then mid - 1 else mid - 2
  let high := mid + 2
  -- A quarter is `quarter / step` of the way from one grid point to the next.
  let quarter := Nat.pow 2 e.toNat * Nat.pow 10 (-k).toNat
  let step := Nat.pow 2 (-e).toNat * Nat.pow 10 k.toNat
  -- The ends of the interval are rounded to `x` only if its mantissa is even.
  let inside (point : Nat) : Bool :=
    if x.mantissa % 2 = 0 then low * quarter ≤ point * step && point * step ≤ high * quarter
    else low * quarter < point * step && point * step < high * quarter
  let below := mid * quarter / step
  let above := below + 1
  match inside below, inside above with
  | false, false => none
  | true, false => some below
  | false, true => some above
  | true, true =>
    let down := mid * quarter - below * step
    let up := above * step - mid * quarter
    some (if down < up then below else if up < down then above
      else if below % 2 = 0 then below else above)

/-- The coarsest of the next `grids` grids, from `10 ^ k` on, that has
a point for `x`. -/
def firstGridPoint? (x : Magnitude) : (grids : Nat) → (k : Int) → Option Scientific
  | 0, _ => none
  | grids + 1, k =>
    match x.gridPoint? k with
    | some digits => some ⟨digits, k⟩
    | none => x.firstGridPoint? grids (k - 1)

/-- The fewest digits that are read back as `x`. -/
def shortest (x : Magnitude) : Scientific :=
  -- No more than 18 grids from here have a chance: the value has fewer than
  -- `bits` bits before the point, and 17 digits are always enough.
  let bits : Int := x.mantissa.log2 + 1 + x.exponent
  (x.firstGridPoint? 24 (bits * 30103 / 100000 + 2)).getD ⟨0, 0⟩

end Magnitude

end RouteDoc.Decimal
