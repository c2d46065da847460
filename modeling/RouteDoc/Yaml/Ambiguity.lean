import RouteDoc.Decimal.Binary64
import RouteDoc.Json.Number
import RouteDoc.Text.Search

/-!
# `RouteDoc.Yaml.Ambiguity`: texts that read as something else

A text that is written without quotes may be read back as a null, a
truth value or a number. `isAmbiguous` tells for which texts this is
so.
-/

set_option autoImplicit false

namespace RouteDoc.Yaml

open RouteDoc.Text

/-- The spellings of null. -/
def nullWords : List String := ["", "~", "null", "Null", "NULL"]

/-- The spellings of truth values. -/
def boolWords : List String := ["true", "True", "TRUE", "false", "False", "FALSE"]

/-- The spellings of infinity, without a sign. -/
def infinityWords : List String := [".inf", ".Inf", ".INF"]

/-- The spellings of what is not a number. -/
def nanWords : List String := [".nan", ".NaN", ".NAN"]

/-- The value of `c` as a digit to the given base. -/
def digit? (base : Nat) (c : Char) : Option Nat :=
  let n := if '0' ≤ c ∧ c ≤ '9' then c.toNat - '0'.toNat
    else if 'a' ≤ c ∧ c ≤ 'f' then c.toNat - 'a'.toNat + 10
    else if 'A' ≤ c ∧ c ≤ 'F' then c.toNat - 'A'.toNat + 10
    else base
  if n < base then some n else none

/-- The value of a run of digits to the given base; there must be
one. -/
def natOf? (base : Nat) : List Char → Option Nat
  | [] => none
  | ds => ds.foldlM (fun n c => (digit? base c).map fun d => n * base + d) 0

/-- The value of a whole number with a base mark in front. -/
def based? (s : List Char) : Option Nat :=
  match s with
  | '0' :: 'x' :: ds => natOf? 16 ds
  | '0' :: 'o' :: ds => natOf? 8 ds
  | '0' :: 'b' :: ds => natOf? 2 ds
  | _ => none

/-- Whether this is a whole number with a base mark that fits into 128
bits, signed or unsigned. -/
def isBased (s : List Char) : Bool :=
  match s with
  | '-' :: s => (based? s).any (· ≤ Nat.pow 2 127)
  | '+' :: s => (based? s).any (· < Nat.pow 2 128)
  | s => (based? s).any (· < Nat.pow 2 128)

/-- The text without a sign at its start. -/
def unsigned : List Char → List Char
  | '-' :: s => s
  | '+' :: s => s
  | s => s

/-- Whether this is a run of two or more digits that starts with a
zero. It is no number, but close to one. -/
def isZeroPadded (s : List Char) : Bool :=
  match unsigned s with
  | '0' :: d :: ds => (d :: ds).all Char.isDigit
  | _ => false

/-- The exponent that the end of a decimal gives; the end is empty, or
a letter, a sign if need be, and digits. -/
def exponentOf? : List Char → Option Int
  | [] => some 0
  | c :: s =>
    if c = 'e' ∨ c = 'E' then
      match s with
      | '-' :: ds => (natOf? 10 ds).map fun n => -(n : Int)
      | '+' :: ds => (natOf? 10 ds).map fun n => (n : Int)
      | ds => (natOf? 10 ds).map fun n => (n : Int)
    else none

/-- Whether this is a decimal number without a sign that is not too
large for a double. There is a digit before or behind the point, which
may be missing. -/
def isDecimal (s : List Char) : Bool :=
  let whole := s.takeWhile Char.isDigit
  let rest := s.dropWhile Char.isDigit
  let (fraction, rest) := match rest with
    | '.' :: tail => (tail.takeWhile Char.isDigit, tail.dropWhile Char.isDigit)
    | rest => ([], rest)
  if whole.isEmpty && fraction.isEmpty then false
  else match exponentOf? rest with
    | none => false
    | some e => Decimal.isFinite (Json.digitsValue (whole ++ fraction)) (e - fraction.length)

/-- Whether a text, written as it is, is read back as something other
than a text, or is too close to that. -/
def isAmbiguous (s : List Char) : Bool :=
  let text := String.ofList s
  nullWords.contains text || boolWords.contains text || nanWords.contains text
    || infinityWords.contains (String.ofList (unsigned s))
    || isBased s || isZeroPadded s || isDecimal (unsigned s)

end RouteDoc.Yaml
