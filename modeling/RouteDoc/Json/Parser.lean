import RouteDoc.Json.Form
import RouteDoc.Text.Search

/-!
# `RouteDoc.Json.Parser`: reading JSON

A reader takes something off the front of a text and yields it together
with the rest, or nothing if the text does not start with it. The
grammar is that of RFC 8259 to the letter: four blank characters, no
control characters in strings, no leading zeros, no trailing commas.

* `assemble_chars`: characters that are not escaped are read as they
  are.
-/

set_option autoImplicit false

namespace RouteDoc.Json

open RouteDoc.Text

/-- Takes something off the front of a text. -/
abbrev Reader (α : Type) := List Char → Option (α × List Char)

/-- Whether `c` may stand between the parts of a JSON text. -/
def isSpace (c : Char) : Bool := c = ' ' || c = '\t' || c = '\n' || c = '\r'

/-- The text without the blanks at its start. -/
def skipSpace (text : List Char) : List Char := text.dropWhile isSpace

namespace Reader

/-! ### Strings -/

/-- A part of a string: a character, or a 16-bit unit that was written
as an escape. -/
inductive Piece where
  | char (c : Char)
  | unit (n : Nat)
  deriving DecidableEq, Repr

/-- The value of a hexadecimal digit. -/
def hexDigit? (c : Char) : Option Nat :=
  if '0' ≤ c ∧ c ≤ '9' then some (c.toNat - '0'.toNat)
  else if 'a' ≤ c ∧ c ≤ 'f' then some (c.toNat - 'a'.toNat + 10)
  else if 'A' ≤ c ∧ c ≤ 'F' then some (c.toNat - 'A'.toNat + 10)
  else none

/-- The value of four hexadecimal digits. -/
def hexUnit? (a b c d : Char) : Option Nat := do
  return ((← hexDigit? a) * 16 + (← hexDigit? b)) * 256 + ((← hexDigit? c) * 16 + (← hexDigit? d))

/-- The character that a backslash and `c` stand for. -/
def simpleEscape? (c : Char) : Option Char :=
  if c = '"' ∨ c = '\\' ∨ c = '/' then some c
  else if c = 'b' then some '\x08'
  else if c = 'f' then some '\x0c'
  else if c = 'n' then some '\n'
  else if c = 'r' then some '\r'
  else if c = 't' then some '\t'
  else none

/-- The parts of a string up to its closing quote. -/
def pieces : Reader (List Piece)
  | [] => none
  | '\\' :: 'u' :: a :: b :: c :: d :: text =>
    match hexUnit? a b c d, pieces text with
    | some n, some (ps, rest) => some (.unit n :: ps, rest)
    | _, _ => none
  | '\\' :: c :: text =>
    match simpleEscape? c, pieces text with
    | some c, some (ps, rest) => some (.char c :: ps, rest)
    | _, _ => none
  | c :: text =>
    if c = '"' then some ([], text)
    else if c < ' ' then none
    else match pieces text with
      | some (ps, rest) => some (.char c :: ps, rest)
      | none => none

/-- The characters that the parts of a string stand for. Units beyond
the basic plane come in pairs; half a pair stands for nothing. -/
def assemble : List Piece → Option (List Char)
  | [] => some []
  | .char c :: ps => (assemble ps).map (c :: ·)
  | .unit high :: .unit low :: ps =>
    if 0xD800 ≤ high ∧ high < 0xDC00 then
      if 0xDC00 ≤ low ∧ low < 0xE000 then
        (assemble ps).map (Char.ofNat (0x10000 + (high - 0xD800) * 0x400 + (low - 0xDC00)) :: ·)
      else none
    else if 0xDC00 ≤ high ∧ high < 0xE000 then none
    else (assemble (.unit low :: ps)).map (Char.ofNat high :: ·)
  | .unit n :: ps =>
    if 0xD800 ≤ n ∧ n < 0xE000 then none else (assemble ps).map (Char.ofNat n :: ·)

/-- Characters that are not escaped are read as they are. -/
theorem assemble_chars (s : List Char) : assemble (s.map .char) = some s := by
  induction s with
  | nil => rfl
  | cons c s ih => simp [assemble, ih]

/-- A string behind its opening quote. -/
def string : Reader (Option String) := fun text =>
  (pieces text).map fun (ps, rest) => ((assemble ps).map String.ofList, rest)

/-! ### Numbers -/

/-- A run of decimal digits that is not empty. -/
def digits : Reader (List Char) := fun text =>
  match text.takeWhile Char.isDigit with
  | [] => none
  | ds => some (ds, text.dropWhile Char.isDigit)

/-- The digits behind a point, if there is one. -/
def fraction : Reader (List Char)
  | '.' :: text => digits text
  | text => some ([], text)

/-- An exponent, if there is one. -/
def exponent : Reader (Option (Bool × List Char)) := fun text =>
  let signed (text : List Char) :=
    match text with
    | '-' :: text => (digits text).map fun (ds, rest) => (some (true, ds), rest)
    | '+' :: text => (digits text).map fun (ds, rest) => (some (false, ds), rest)
    | text => (digits text).map fun (ds, rest) => (some (false, ds), rest)
  match text with
  | 'e' :: text => signed text
  | 'E' :: text => signed text
  | text => some (none, text)

/-- A number. The part before the point has no leading zero. -/
def lexeme : Reader Lexeme := fun text => do
  let (negative, text) := match text with
    | '-' :: text => (true, text)
    | text => (false, text)
  let (whole, text) ← digits text
  if whole.head? = some '0' ∧ whole.length ≠ 1 then none
  let (fraction, text) ← fraction text
  let (exponent, text) ← exponent text
  return ({ negative, whole, fraction, exponent }, text)

/-! ### Arrays, objects, values -/

variable {α : Type}

/-- Items with commas in between, up to the character `close`. The
number bounds how many items are read. -/
def itemsUpTo (item : Reader α) (close : Char) : Nat → Reader (List α)
  | 0, _ => none
  | n + 1, text =>
    match item text with
    | none => none
    | some (a, rest) =>
      match skipSpace rest with
      | [] => none
      | c :: rest =>
        if c = close then some ([a], rest)
        else if c = ',' then
          (itemsUpTo item close n rest).map fun (as, rest) => (a :: as, rest)
        else none

/-- Items with commas in between, up to the character `close`; there
may be none. -/
def items (item : Reader α) (close : Char) : Reader (List α) := fun text =>
  match skipSpace text with
  | [] => none
  | c :: rest =>
    -- Every item but the last takes up a comma, so the length of the text is enough.
    if c = close then some ([], rest) else itemsUpTo item close text.length text

/-- A member of an object: a string, a colon and what `value` reads. -/
def member (value : Reader α) : Reader (Option String × α) := fun text =>
  match skipSpace text with
  | '"' :: text => do
    let (key, rest) ← string text
    match skipSpace rest with
    | ':' :: rest =>
      let (a, rest) ← value rest
      return ((key, a), rest)
    | _ => none
  | _ => none

/-- A value, with blanks before it, in which no more than `depth`
values are nested. -/
def form : (depth : Nat) → Reader Form
  | 0, _ => none
  | depth + 1, text =>
    match skipSpace text with
    | [] => none
    | c :: rest =>
      let word (tail : List Char) (value : Form) :=
        (after? tail rest).map fun rest => (value, rest)
      if c = 'n' then word ['u', 'l', 'l'] .null
      else if c = 't' then word ['r', 'u', 'e'] (.bool true)
      else if c = 'f' then word ['a', 'l', 's', 'e'] (.bool false)
      else if c = '"' then (string rest).map fun (s, rest) => (.string s, rest)
      else if c = '[' then
        (items (form depth) ']' rest).map fun (as, rest) => (.array as, rest)
      else if c = '{' then
        (items (member (form depth)) '}' rest).map fun (ms, rest) => (.object ms, rest)
      else (lexeme (c :: rest)).map fun (l, rest) => (.number l, rest)

end Reader

/-- The form of a text that is JSON from end to end. -/
def parseForm (text : List Char) : Option Form :=
  -- Every level of nesting takes up a bracket, so the length of the text is enough.
  match Reader.form (text.length + 1) text with
  | some (form, rest) => if (skipSpace rest).isEmpty then some form else none
  | none => none

/-- The value of a text that is JSON from end to end. -/
def parse (text : List Char) : Option Json := (parseForm text).bind Form.value?

end RouteDoc.Json
