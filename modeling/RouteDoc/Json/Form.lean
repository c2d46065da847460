import RouteDoc.Json.Value

/-!
# `RouteDoc.Json.Form`: what a JSON text says, before it is judged

The grammar of JSON says where the parts of a text are, but some texts
of the right form still have no value: a number may be too large, an
escape may be half of a pair, and values may be nested too deeply. A
`Form` is what the grammar alone sees; `Form.value?` passes judgement
on all of it. The two are apart because a reader that skips a part of a
text is content with its form.

The keys of an object may repeat in a form.
-/

set_option autoImplicit false

namespace RouteDoc.Json

/-- What the grammar sees of a JSON text. -/
inductive Form where
  | null
  | bool (b : Bool)
  | number (lexeme : Lexeme)
  /-- A string; it has no text if an escape is half of a pair. -/
  | string (text : Option String)
  | array (items : List Form)
  | object (members : List (Option String × Form))
  deriving Repr, Inhabited

/-- How many arrays and objects may be nested. -/
def maxDepth : Nat := 127

namespace Form

mutual

/-- The value of a form when as many as `depth` arrays and objects may
still be nested. -/
def valueWithin (depth : Nat) : Form → Option Json
  | null => some .null
  | bool b => some (.bool b)
  | number lexeme => (Number.ofLexeme? lexeme).map .number
  | string text => text.map .string
  | array items =>
    match depth with
    | 0 => none
    | depth + 1 => (valuesWithin depth items).map .array
  | object members =>
    match depth with
    | 0 => none
    | depth + 1 => (membersWithin depth members).map (.object ∘ merge)

/-- The values of the items of an array. -/
def valuesWithin (depth : Nat) : List Form → Option (List Json)
  | [] => some []
  | item :: items =>
    match valueWithin depth item, valuesWithin depth items with
    | some value, some values => some (value :: values)
    | _, _ => none

/-- The members of an object, with their values, as they are
written. -/
def membersWithin (depth : Nat) : List (Option String × Form) → Option (List (String × Json))
  | [] => some []
  | (key, form) :: members =>
    match key, valueWithin depth form, membersWithin depth members with
    | some key, some value, some rest => some ((key, value) :: rest)
    | _, _, _ => none

end

/-- The value of a form. -/
def value? (form : Form) : Option Json := form.valueWithin maxDepth

end Form

end RouteDoc.Json
