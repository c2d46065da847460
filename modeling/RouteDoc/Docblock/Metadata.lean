import RouteDoc.Docblock.Arguments
import RouteDoc.Docblock.Fault
import RouteDoc.Json.Parser

/-!
# `RouteDoc.Docblock.Metadata`: the metadata blocks of a marker

A block of default values is a list of pairs in braces, cut at every
comma. A block of requirements is JSON once the `=` behind a quoted key
is read as a colon and backslashes are taken literally; only its keys
matter. In both, stars are left over from the margin of the docblock
and do not count.

* `unsetStars_eq_self`: a block without stars is read as it stands.
-/

set_option autoImplicit false

namespace RouteDoc.Docblock

open RouteDoc.Text

/-- A text without its stars. -/
def unsetStars (text : List Char) : List Char := text.filter (· != '*')

/-- A text that has no stars loses none. -/
theorem unsetStars_eq_self {text : List Char} (h : '*' ∉ text) : unsetStars text = text := by
  refine List.filter_eq_self.2 fun c hc => ?_
  simp only [bne_iff_ne, ne_eq]
  rintro rfl
  exact h hc

/-! ### Default values -/

/-- What stands between the braces of a block. -/
def insideBraces? (text : List Char) : Option (List Char) :=
  match text with
  | [] => none
  | c :: rest =>
    if c = '{' ∧ rest.getLast? = some '}' then some rest.dropLast else none

/-- The key and the value of a pair: what stands before and after the
first `=`, or the first colon if there is no `=`. -/
def pairOf? (text : List Char) : Option (String × String) :=
  ((splitOnce '=' text).or (splitOnce ':' text)).map fun (key, value) =>
    (String.ofList (unquote key), String.ofList (unquote value))

/-- The pairs of a block of default values, in order. -/
def defaultPairs (value : String) : Except Fault (List (String × String)) :=
  match insideBraces? (trim (unsetStars value.toList)) with
  | none => .error (.defaultsNotABlock value)
  | some inside =>
    let fields := ((inside.splitOn ',').map trim).filter (!·.isEmpty)
    match fields.mapM pairOf? with
    | none => .error (.defaultsNotAPair value)
    | some pairs => .ok pairs

/-! ### Requirements -/

/-- The text with a colon in the place of every `=` that follows a
double quote, with or without blanks in between; the blanks go too. The
first argument is the run of blanks since the last double quote, last
one first, if nothing else has come since. -/
def assignmentsFrom : Option (List Char) → List Char → List Char
  | blanks, [] => (blanks.getD []).reverse
  | none, c :: text => c :: assignmentsFrom (if c = '"' then some [] else none) text
  | some blanks, c :: text =>
    if c = '=' then ':' :: assignmentsFrom none text
    else if isBlank c then assignmentsFrom (some (c :: blanks)) text
    else blanks.reverse ++ c :: assignmentsFrom (if c = '"' then some [] else none) text

/-- The text with every backslash doubled, so that within a JSON string
it stands for itself. -/
def escapeBackslashes (text : List Char) : List Char :=
  text.flatMap fun c => if c = '\\' then ['\\', '\\'] else [c]

/-- A block of requirements as JSON. -/
def requirementsJson (value : List Char) : List Char :=
  trim (escapeBackslashes (assignmentsFrom none (unsetStars value)))

/-- The keys of a block of requirements, in order of first
appearance. -/
def requirementKeys (value : String) : Except Fault (List String) :=
  match Json.parse (requirementsJson value.toList) with
  | some (.object members) => .ok (members.map Prod.fst)
  | _ => .error .requirementsNotAnObject

end RouteDoc.Docblock
