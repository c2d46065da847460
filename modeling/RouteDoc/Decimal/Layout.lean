import RouteDoc.Decimal.Shortest

/-!
# `RouteDoc.Decimal.Layout`: how the digits of a number are laid out

The digits of a number say nothing about where its point goes and
whether an exponent is written. These decisions are collected in a
`Layout`.
-/

set_option autoImplicit false

namespace RouteDoc.Decimal

/-- How numbers are written. The exponent of a number is that of its
first digit. -/
structure Layout where
  /-- The least exponent that is written by the place of the point. -/
  minPositional : Int
  /-- The greatest exponent that is written by the place of the
  point. -/
  maxPositional : Int
  /-- What a whole number ends with. -/
  wholeEnd : String
  /-- The mark before an exponent that is not negative. -/
  positiveMark : String
  /-- The mark before a negative exponent. -/
  negativeMark : String
  deriving DecidableEq, Repr

namespace Layout

/-- The text of `digits * 10 ^ exponent`. -/
def scientific (layout : Layout) (x : Scientific) : List Char :=
  let digits := Nat.toDigits 10 x.digits
  let lead : Int := digits.length - 1 + x.exponent
  if layout.minPositional ≤ lead && lead ≤ layout.maxPositional then
    if 0 ≤ x.exponent then
      digits ++ List.replicate x.exponent.toNat '0' ++ layout.wholeEnd.toList
    else if 0 ≤ lead then
      digits.take (lead.toNat + 1) ++ '.' :: digits.drop (lead.toNat + 1)
    else
      '0' :: '.' :: List.replicate ((-lead).toNat - 1) '0' ++ digits
  else
    let first := match digits with
      | d :: rest@(_ :: _) => d :: '.' :: rest
      | _ => digits
    let mark := if 0 ≤ lead then layout.positiveMark else layout.negativeMark
    first ++ mark.toList ++ Nat.toDigits 10 lead.natAbs

/-- The text of a double. -/
def binary64 (layout : Layout) (x : Binary64) : List Char :=
  let text := if x.magnitude.isZero then '0' :: layout.wholeEnd.toList
    else layout.scientific x.magnitude.shortest
  if x.negative then '-' :: text else text

end Layout

end RouteDoc.Decimal
