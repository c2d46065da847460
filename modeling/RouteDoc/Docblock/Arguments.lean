import RouteDoc.OrderedMap
import RouteDoc.Text.Blank
import RouteDoc.Text.Search

/-!
# `RouteDoc.Docblock.Arguments`: the arguments of a marker

The arguments of a marker may run over several lines of a docblock,
each with a margin of blanks and stars. Unfolding takes the margins
away and joins the lines. The result is cut into fields at every `", "`
that stands outside braces, and each field is a bare URL or a pair of a
key and a value.

* `splitFields_ne_nil`: there is always a field.
* `intercalate_splitFields`: cutting loses nothing but the separators.
-/

set_option autoImplicit false

namespace RouteDoc.Docblock

open RouteDoc.Text

/-! ### Unfolding -/

/-- A line without its margin: blanks at both ends, a run of stars, and
the blanks behind that. -/
def withoutMargin (line : List Char) : List Char :=
  trim ((trim line).dropWhile (· = '*'))

/-- The lines of a docblock joined by single spaces, without their
margins; lines that hold nothing else are left out. -/
def unfold (text : List Char) : List Char :=
  [' '].intercalate (((text.splitOn '\n').map withoutMargin).filter (!·.isEmpty))

/-! ### Fields -/

/-- The fields of an argument list: what stands between the separators
`", "` that are not inside braces. `depth` is the number of braces
opened so far less those closed; it may be negative, and a separator
counts unless it is positive.

The number has 32 bits, so it wraps around: behind 2³¹ open braces it is
negative, and separators count again. -/
def splitFieldsFrom (depth : Int32) : List Char → List (List Char)
  | [] => [[]]
  | ',' :: ' ' :: text =>
    if depth ≤ 0 then [] :: splitFieldsFrom depth text
    else ((splitFieldsFrom depth text).modifyHead (' ' :: ·)).modifyHead (',' :: ·)
  | c :: text =>
    let depth := if c = '{' then depth + 1 else if c = '}' then depth - 1 else depth
    (splitFieldsFrom depth text).modifyHead (c :: ·)

/-- The fields of an argument list. -/
def splitFields (text : List Char) : List (List Char) := splitFieldsFrom 0 text

/-- There is always a field, though it may be empty. -/
theorem splitFieldsFrom_ne_nil (depth : Int32) (text : List Char) :
    splitFieldsFrom depth text ≠ [] := by
  fun_induction splitFieldsFrom depth text <;> simp_all [List.modifyHead_eq_nil_iff]

/-- There is always a field, though it may be empty. -/
theorem splitFields_ne_nil (text : List Char) : splitFields text ≠ [] :=
  splitFieldsFrom_ne_nil 0 text

/-- A character put in front of the first field is put in front of the
joined text. -/
private theorem intercalate_modifyHead (c : Char) {fields : List (List Char)}
    (h : fields ≠ []) :
    [',', ' '].intercalate (fields.modifyHead (c :: ·)) = c :: [',', ' '].intercalate fields := by
  match fields, h with
  | [field], _ => simp [List.intercalate]
  | field :: field' :: rest, _ => simp [List.intercalate_cons_cons]

/-- Joining the fields gives the text back, at every depth. -/
theorem intercalate_splitFieldsFrom (depth : Int32) (text : List Char) :
    [',', ' '].intercalate (splitFieldsFrom depth text) = text := by
  fun_induction splitFieldsFrom depth text with
  | case1 => rfl
  | case2 depth text _ ih =>
    have h := splitFieldsFrom_ne_nil depth text
    match hs : splitFieldsFrom depth text, h with
    | field :: rest, _ => rw [List.intercalate_cons_cons, ← hs, ih]; rfl
  | case3 depth text _ ih =>
    have h := splitFieldsFrom_ne_nil depth text
    rw [intercalate_modifyHead _ (by simpa [List.modifyHead_eq_nil_iff] using h),
      intercalate_modifyHead _ h, ih]
  | case4 depth c text _ depth' ih =>
    rw [intercalate_modifyHead _ (splitFieldsFrom_ne_nil depth' text), ih]

/-- Cutting loses nothing: the fields joined by `", "` are the text. -/
theorem intercalate_splitFields (text : List Char) :
    [',', ' '].intercalate (splitFields text) = text :=
  intercalate_splitFieldsFrom 0 text

/-! ### The arguments -/

/-- A text without its quotes, single and double, wherever they stand,
and then without the blanks at its ends. -/
def unquote (text : List Char) : List Char :=
  trim (text.filter fun c => c != '"' && c != '\'')

/-- The arguments of a marker. -/
structure Arguments where
  /-- The URL; empty if none is given. -/
  url : String
  /-- The name; empty if none is given. -/
  name : String
  /-- All other attributes, with their values as they are written. -/
  attributes : OrderedMap String String
  deriving DecidableEq, Repr

namespace Arguments

/-- No arguments. -/
def empty : Arguments := { url := "", name := "", attributes := ∅ }

/-- The arguments with one more field. A field without `=` is a URL; so
is the value of `path` and of `value`. A field of blanks says
nothing. -/
def addField (a : Arguments) (field : List Char) : Arguments :=
  let field := trim field
  if field.isEmpty then a
  else match splitOnce '=' field with
    | none => { a with url := String.ofList (unquote field) }
    | some (key, value) =>
      let key := String.ofList (unquote key)
      if key = "name" then { a with name := String.ofList (unquote value) }
      else if key = "path" ∨ key = "value" then { a with url := String.ofList (unquote value) }
      else { a with attributes := a.attributes.insert key (String.ofList (trim value)) }

/-- The arguments that stand between the parentheses of a marker. -/
def ofText (text : List Char) : Arguments :=
  (splitFields (unfold text)).foldl addField empty

end Arguments

end RouteDoc.Docblock
