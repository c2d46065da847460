import RouteDoc.Json.Printer
import RouteDoc.Notice
import RouteDoc.Placeholder
import RouteDoc.Route
import RouteDoc.Text.Blank
import RouteDoc.Text.Search

/-!
# `RouteDoc.Dump.Entry`: the entries of a route dump

An entry of a dump names a route and describes it: its path, the
methods it answers, default values and requirements. An entry is first
read and then applied to a route, the same way under each of its verbs:

1. default values are recorded and become optional form parameters,
2. requirements become required parameters, of the path if it has a
   placeholder of that name,
3. placeholders that are not declared by then become required path
   parameters.

A later step overwrites what an earlier one has declared under the same
name.

* `hasParameter_addPlaceholder`: a placeholder is declared once it has
  been added.
-/

set_option autoImplicit false

namespace RouteDoc.Dump

open RouteDoc.Text

/-! ### Reading -/

/-- What an entry says of a route. -/
structure Entry where
  /-- The name of the route. -/
  name : String
  /-- Its URL. -/
  url : String
  /-- The verbs that the entry is about, without repeats. -/
  verbs : List Verb
  /-- The default values, as literals. -/
  defaults : List (String × String)
  /-- The requirements, as literals. -/
  requirements : List (String × String)
  deriving DecidableEq, Repr

/-- The text of a value in a route: that of a string is the string
itself, null has none, and every other value is its JSON. -/
def literal (value : Json) : String :=
  match value with
  | .string s => s
  | .null => ""
  | value => value.oneLine

/-- A path with plain slashes in the place of escaped ones. -/
def plainSlashes : List Char → List Char
  | [] => []
  | '\\' :: '/' :: path => '/' :: plainSlashes path
  | c :: path => c :: plainSlashes path

/-- The method that stands for all. -/
def anyMethod : String := "ANY"

/-- Whether a method field stands for all methods: it says so, in any
case, or is blank. -/
def isAnyMethod (methods : List Char) : Bool :=
  let token := trim methods
  token.isEmpty || asciiLower token = asciiLower anyMethod.toList

/-- The verbs of a method field, in order of first appearance. Methods
are separated by bars. -/
def verbsOf (methods : String) : List Verb :=
  if isAnyMethod methods.toList then Verb.all
  else
    ((methods.toList.splitOn '|').filterMap (Verb.parse? ∘ String.ofList)).foldl
      (fun verbs v => if v ∈ verbs then verbs else verbs ++ [v]) []

/-- The methods of a method field that are not supported, as they are
written. -/
def unsupportedMethods (methods : String) : List String :=
  if isAnyMethod methods.toList then []
  else ((methods.toList.splitOn '|').map String.ofList).filter fun s => (Verb.parse? s).isNone

/-- The literals of a field that should be an object; any other value
has none. -/
def literalsOf (field : Option Json) : List (String × String) :=
  ((field.bind Json.members?).getD []).map fun (key, value) => (key, literal value)

/-- Reads the entry that describes a route. An entry that is not an
object, or has no path, is reported and says nothing. -/
def Entry.read (name : String) (description : Json) : Noted (Option Entry) :=
  match description with
  | .object fields =>
    match (Json.member? "path" fields).bind Json.string? with
    | none => do
      Noted.note (.entryWithoutPath name)
      return none
    | some path => do
      let methods := ((Json.member? "method" fields).bind Json.string?).getD anyMethod
      Noted.noteAll ((unsupportedMethods methods).map .unsupportedMethod)
      return some
        { name
          url := onChars plainSlashes path
          verbs := verbsOf methods
          defaults := literalsOf (Json.member? "defaults" fields)
          requirements := literalsOf (Json.member? "requirements" fields) }
  | _ => do
    Noted.note (.entryNotAnObject name)
    return none

/-! ### Applying -/

/-- The requirement that marks a whole number. -/
def digitsRequirement : List Char := ['\\', '\\', 'd', '+']

/-- The type of a parameter with the given requirement. The case of the
requirement does not matter; no letter outside ASCII has the same small
letter as the `d` in it. -/
def typeOfRequirement (requirement : String) : String :=
  if asciiLower requirement.toList = digitsRequirement then integerType else textType

/-- The type of a placeholder that nothing is known of: one with `id`
in its name, in any case, holds a whole number. No letter outside ASCII
has the small letter `i` or `d` and nothing else. -/
def typeOfPlaceholder (name : String) : String :=
  if occursIn ['i', 'd'] (asciiLower name.toList) then integerType else textType

/-- Whether a URL has the placeholder of the given name. -/
def inTemplate (url name : String) : Bool :=
  occursIn (Placeholder.text name).toList url.toList

/-- The form parameter of a default value. -/
def defaultParameter (name value : String) : Parameter :=
  { name, location := .form, required := false, type := textType, default := value }

/-- The parameter of a requirement. -/
def requiredParameter (url name requirement : String) : Parameter :=
  { name
    location := if inTemplate url name then .path else .form
    required := true
    type := typeOfRequirement requirement
    default := "" }

/-- The profile with a default value recorded and declared. -/
def addDefaultParameter (p : Profile) (default : String × String) : Profile :=
  (p.addDefault default.1 default.2).addParameter (defaultParameter default.1 default.2)

/-- The profile with a placeholder declared, if it was not before. -/
def addPlaceholder (p : Profile) (name : String) : Profile :=
  if p.hasParameter name then p
  else p.addParameter (Parameter.ofPlaceholder name (typeOfPlaceholder name))

namespace Entry

/-- The profile of a verb after the entry has been applied to it. -/
def applyToProfile (e : Entry) (p : Profile) : Profile :=
  let p := e.defaults.foldl addDefaultParameter p
  let p := e.requirements.foldl
    (fun p (name, requirement) => p.addParameter (requiredParameter e.url name requirement)) p
  (Placeholder.names e.url).foldl addPlaceholder p

/-- The route after the entry has been applied to it. -/
def apply (e : Entry) (r : Route) : Route :=
  e.verbs.foldl (fun r v => r.update v e.applyToProfile) r

end Entry

/-- A placeholder is declared once it has been added. -/
theorem hasParameter_addPlaceholder (p : Profile) (name : String) :
    (addPlaceholder p name).hasParameter name = true := by
  unfold addPlaceholder
  split
  · assumption
  · have h : Keyed.find? Parameter.name name (Keyed.put Parameter.name
        (Parameter.ofPlaceholder name (typeOfPlaceholder name)) p.parameters)
        = some (Parameter.ofPlaceholder name (typeOfPlaceholder name)) :=
      Keyed.find?_put_of_eq rfl
    simp [Profile.hasParameter, Profile.parameter?, Profile.addParameter, h]

end RouteDoc.Dump
