import RouteDoc.Json.Value
import RouteDoc.Yaml.Scalar

/-!
# `RouteDoc.Yaml.Printer`: values as YAML

Objects and arrays are written as blocks, two spaces of indentation per
level; the items of an array stand at the level of its key. Empty ones
are written as a pair of brackets. A key that is long or has line
breaks is marked as such, and its value stands on a line of its own.

* `endLine_append`: a line is ended once.
-/

set_option autoImplicit false

namespace RouteDoc.Yaml

open RouteDoc.Text

/-- The most bytes that a key can have without being marked. -/
def maxSimpleKey : Nat := 128

/-- Whether a key can be written without being marked. -/
def isSimpleKey (key : List Char) : Bool := utf8Size key ≤ maxSimpleKey && !key.any isBreak

/-- A text with a line feed at its end, unless it ends with a line break
already. -/
def endLine (text : List Char) : List Char :=
  if text.getLast?.any isBreak then text else text ++ ['\n']

/-- A line feed is put behind a text that ends with another
character. -/
theorem endLine_append {text : List Char} {c : Char} (h : isBreak c = false) :
    endLine (text ++ [c]) = text ++ [c, '\n'] := by
  simp [endLine, h]

/-- A key with the mark of a value behind it, up to where the value is
written if it takes up lines of its own. -/
def keyLead (indent : Nat) (key : String) : List Char :=
  if isSimpleKey key.toList then scalar (indent + 2) key.toList ++ [':']
  else '?' :: ' ' :: endLine (scalar (indent + 2) key.toList) ++ spaces indent ++ [':']

/-- What stands between a key and its value, and the indentation of the
value. A block behind a plain key starts on a line of its own. -/
def valueLead (indent : Nat) (key : String) (value : Json) : List Char × Nat :=
  let level := match value with
    | .array (_ :: _) => some indent
    | .object (_ :: _) => some (indent + 2)
    | _ => none
  match level, isSimpleKey key.toList with
  | some level, true => ('\n' :: spaces level, level)
  | _, _ => ([' '], indent + 2)

mutual

/-- The lines of a value. The first one is already indented by
`indent`. -/
def lines (indent : Nat) : Json → List Char
  | .null => ['n', 'u', 'l', 'l', '\n']
  | .bool b => if b then ['t', 'r', 'u', 'e', '\n'] else ['f', 'a', 'l', 's', 'e', '\n']
  | .number n => n.text ++ ['\n']
  | .string s => endLine (scalar indent s.toList)
  | .array items =>
    if items.isEmpty then ['[', ']', '\n']
    else (spaces indent).intercalate (itemBlocks indent items)
  | .object members =>
    if members.isEmpty then ['\x7b', '\x7d', '\n']
    else (spaces indent).intercalate (memberBlocks indent members)

/-- The lines of each item of an array. -/
def itemBlocks (indent : Nat) : List Json → List (List Char)
  | [] => []
  | item :: items => ('-' :: ' ' :: lines (indent + 2) item) :: itemBlocks indent items

/-- The lines of each member of an object. -/
def memberBlocks (indent : Nat) : List (String × Json) → List (List Char)
  | [] => []
  | (key, value) :: members =>
    let lead := valueLead indent key value
    (keyLead indent key ++ lead.1 ++ lines lead.2 value) :: memberBlocks indent members

end

/-- An object or an array as YAML. -/
def render (value : Json) : String := String.ofList (lines 0 value)

end RouteDoc.Yaml
