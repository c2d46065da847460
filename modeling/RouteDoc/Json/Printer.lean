import RouteDoc.Json.Value

/-!
# `RouteDoc.Json.Printer`: writing JSON

A value is written in one line without blanks, or with one item a line
and two more spaces of indentation per level. Empty arrays and objects
are written as a pair of brackets either way.

* `escapeChar_of_ne`: a character outside the escapes is written as it
  is.
-/

set_option autoImplicit false

namespace RouteDoc.Json

/-- A hexadecimal digit, in small letters. -/
def hexChar (n : Nat) : Char := Nat.digitChar n

/-- A character as it is written in a string: quotes, backslashes and
control characters are escaped. -/
def escapeChar (c : Char) : List Char :=
  if c = '"' then ['\\', '"']
  else if c = '\\' then ['\\', '\\']
  else if c = '\x08' then ['\\', 'b']
  else if c = '\x0c' then ['\\', 'f']
  else if c = '\n' then ['\\', 'n']
  else if c = '\r' then ['\\', 'r']
  else if c = '\t' then ['\\', 't']
  else if c < ' ' then ['\\', 'u', '0', '0', hexChar (c.toNat / 16), hexChar (c.toNat % 16)]
  else [c]

/-- A character outside the escapes is written as it is. -/
theorem escapeChar_of_ne {c : Char} (hq : c ≠ '"') (hb : c ≠ '\\') (hc : ¬c < ' ') :
    escapeChar c = [c] := by
  have hne : ∀ d : Char, d < ' ' → c ≠ d := fun d hd h => hc (h ▸ hd)
  simp [escapeChar, hq, hb, hc, hne '\x08' (by decide), hne '\x0c' (by decide),
    hne '\n' (by decide), hne '\r' (by decide), hne '\t' (by decide)]

/-- A string in quotes. -/
def quote (s : String) : List Char := '"' :: s.toList.flatMap escapeChar ++ ['"']

mutual

/-- A value in one line. -/
def compact : Json → List Char
  | null => ['n', 'u', 'l', 'l']
  | bool b => if b then ['t', 'r', 'u', 'e'] else ['f', 'a', 'l', 's', 'e']
  | number n => n.text
  | string s => quote s
  | array items => '[' :: [','].intercalate (compactItems items) ++ [']']
  | object members => '{' :: [','].intercalate (compactMembers members) ++ ['}']

/-- The items of an array, each in one line. -/
def compactItems : List Json → List (List Char)
  | [] => []
  | item :: items => compact item :: compactItems items

/-- The members of an object, each in one line. -/
def compactMembers : List (String × Json) → List (List Char)
  | [] => []
  | (key, value) :: members => (quote key ++ ':' :: compact value) :: compactMembers members

end

/-- A line break and the indentation of the line that follows. -/
def newline (indent : Nat) : List Char := '\n' :: List.replicate (2 * indent) ' '

/-- Blocks with commas in between, each on lines of its own, between an
opening and a closing bracket. -/
def bracket (indent : Nat) (opening closing : Char) (blocks : List (List Char)) : List Char :=
  if blocks.isEmpty then [opening, closing]
  else opening :: newline (indent + 1)
    ++ (',' :: newline (indent + 1)).intercalate blocks ++ newline indent ++ [closing]

mutual

/-- A value with one item a line. Its first line is already indented;
`indent` is the level of the others. -/
def prettyAt (indent : Nat) : Json → List Char
  | null => ['n', 'u', 'l', 'l']
  | bool b => if b then ['t', 'r', 'u', 'e'] else ['f', 'a', 'l', 's', 'e']
  | number n => n.text
  | string s => quote s
  | array items => bracket indent '[' ']' (prettyItems (indent + 1) items)
  | object members => bracket indent '{' '}' (prettyMembers (indent + 1) members)

/-- The items of an array, each with its lines. -/
def prettyItems (indent : Nat) : List Json → List (List Char)
  | [] => []
  | item :: items => prettyAt indent item :: prettyItems indent items

/-- The members of an object, each with its lines. -/
def prettyMembers (indent : Nat) : List (String × Json) → List (List Char)
  | [] => []
  | (key, value) :: members =>
    (quote key ++ ':' :: ' ' :: prettyAt indent value) :: prettyMembers indent members

end

/-- A value with one item a line. -/
def pretty (value : Json) : String := String.ofList (prettyAt 0 value)

/-- A value in one line. -/
def oneLine (value : Json) : String := String.ofList (compact value)

end RouteDoc.Json
