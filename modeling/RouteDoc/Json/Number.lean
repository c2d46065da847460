import RouteDoc.Decimal.Layout

/-!
# `RouteDoc.Json.Number`: the numbers of JSON

A number is a whole number of at most 64 bits or a double. A lexeme
without fraction and exponent is the former if it fits, signed or
unsigned; every other lexeme is a double.

* `ofLexeme?_neg_zero`: minus zero is a double.
-/

set_option autoImplicit false

namespace RouteDoc.Json

open RouteDoc.Decimal

/-- The spelling of a number, in its parts. All digits are decimal. -/
structure Lexeme where
  /-- Whether there is a minus sign. -/
  negative : Bool
  /-- The digits before the point. -/
  whole : List Char
  /-- The digits behind the point; empty if there is no point. -/
  fraction : List Char
  /-- The exponent, if there is one: whether it is negative, and its
  digits. -/
  exponent : Option (Bool × List Char)
  deriving DecidableEq, Repr

/-- A number. -/
inductive Number where
  | whole (n : Int)
  | real (x : Binary64)
  deriving DecidableEq, Repr

/-- The value of a list of decimal digits. -/
def digitsValue (digits : List Char) : Nat :=
  digits.foldl (fun n d => 10 * n + (d.toNat - '0'.toNat)) 0

/-- The greatest significand that is collected from digits. -/
def maxSignificand : Nat := UInt64.size - 1

/-- Appends digits to a significand as long as the result is not too
large; yields the digits that are left over too. -/
def collect (significand : Nat) : List Char → Nat × List Char
  | [] => (significand, [])
  | d :: digits =>
    let next := 10 * significand + (d.toNat - '0'.toNat)
    if next ≤ maxSignificand then collect next digits else (significand, d :: digits)

namespace Number

/-- How doubles are written: with the point in place for exponents from
-5 to 15, and always with a point or an exponent. -/
def layout : Layout :=
  { minPositional := -5, maxPositional := 15, wholeEnd := ".0"
    positiveMark := "e+", negativeMark := "e-" }

/-- The double that a significand times a power of ten stands for. -/
def realOf? (negative : Bool) (significand : Nat) (exponent : Int) : Option Number := do
  let x ← Magnitude.roundQuotient significand 1
  let x ← x.scaleTen exponent
  return .real ⟨negative, x⟩

/-- The number that a lexeme stands for; there is none if it is too
large for a double. Digits that do not fit into the significand count
for the exponent only. -/
def ofLexeme? (lexeme : Lexeme) : Option Number :=
  let (significand, overflow) := collect 0 lexeme.whole
  if overflow.isEmpty ∧ lexeme.fraction.isEmpty ∧ lexeme.exponent = none then
    if !lexeme.negative then some (.whole significand)
    else if 0 < significand ∧ significand ≤ UInt64.size / 2 then
      some (.whole (-(significand : Int)))
    else realOf? true significand 0
  else
    let (significand, rest) := collect significand lexeme.fraction
    let written : Int := match lexeme.exponent with
      | none => 0
      | some (negative, digits) =>
        if negative then -(digitsValue digits : Int) else digitsValue digits
    realOf? lexeme.negative significand
      (overflow.length - (lexeme.fraction.length - rest.length : Nat) + written)

/-- Minus zero is not a whole number. -/
theorem ofLexeme?_neg_zero :
    ofLexeme? ⟨true, ['0'], [], none⟩ = some (.real ⟨true, Magnitude.zero⟩) := by
  decide +kernel

/-- The text of a number. -/
def text : Number → List Char
  | whole n => (if n < 0 then ['-'] else []) ++ Nat.toDigits 10 n.natAbs
  | real x => layout.binary64 x

end Number

end RouteDoc.Json
