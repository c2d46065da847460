import RouteDoc.Docblock.Metadata
import RouteDoc.Docblock.Sighting
import RouteDoc.Docblock.Url
import RouteDoc.Notice
import RouteDoc.Route

/-!
# `RouteDoc.Docblock.Extract`: the routes of a source text

The first marker of a text declares the base URL. Every later marker
with a name and a URL of its own is a route: its URL is put behind the
base URL, its requirements become required path parameters, and its
default values become optional ones unless there is a requirement of
the same name.

* `extract_of_not_occursIn`: a text without the marker's word has no
  routes.
-/

set_option autoImplicit false

namespace RouteDoc.Docblock

open RouteDoc.Text

/-! ### One marker -/

/-- A path parameter of type text. -/
def pathParameter (required : Bool) (name default : String) : Parameter :=
  { name, location := .path, required, type := textType, default }

/-- The profile that declares default values and requirements. A marker is
about the verb GET. -/
def profileOf (defaults : List (String × String)) (required : List String) : Profile :=
  let recorded :=
    defaults.foldl (fun p (name, value) => p.addDefault name value) (Profile.empty .get)
  let withRequired := required.foldl
    (fun p name => p.addParameter (pathParameter true name ((p.default? name).getD ""))) recorded
  let optional := recorded.defaults.entries.filter fun (name, _) => !required.contains name
  optional.foldl (fun p (name, value) => p.addParameter (pathParameter false name value))
    withRequired

/-- The profile of a marker, from its two metadata blocks. A block that
is not there declares nothing. -/
def profile? (a : Arguments) : Except Fault Profile := do
  let defaults ← match a.attributes.get? "defaults" with
    | some value => defaultPairs value
    | none => pure []
  let required ← match a.attributes.get? "requirements" with
    | some value => requirementKeys value
    | none => pure []
  return profileOf defaults required

/-- The URL of a marker behind the base URL. -/
def urlOf (base : String) (a : Arguments) : String :=
  String.ofList (composeUrl base.toList a.url.toList)

/-- The route of a marker that comes after the one with the base URL.
There is none for a marker without a name, or with the base URL
itself. -/
def route? (base : String) (a : Arguments) : Except Fault (Option Route) :=
  if a.name = "" ∨ a.url = base then .ok none
  else do
    let profile ← profile? a
    return some ((Route.bare (urlOf base a) a.name).attach profile)

/-! ### A whole text -/

/-- The routes of argument lists that stand behind the base URL. A
marker that cannot be read is reported and left out. -/
def routesBelow (base : String) : List (List Char) → Noted (List Route)
  | [] => pure []
  | arguments :: rest =>
    match route? base (Arguments.ofText arguments) with
    | .ok none => routesBelow base rest
    | .ok (some route) => do
      let routes ← routesBelow base rest
      return route :: routes
    | .error fault => do
      Noted.note (.skippedMarker fault (String.ofList (trim arguments)))
      routesBelow base rest

/-- The routes of a list of argument lists. The first one gives the
base URL and, having the same URL as the base, is no route. -/
def routesOf : List (List Char) → Noted (List Route)
  | [] => pure []
  | first :: rest => routesBelow (Arguments.ofText first).url rest

/-- The routes of a text, in order of appearance. Markers that are not
closed are reported before those that cannot be read. -/
def extract (text : String) : Noted (List Route) :=
  if occursIn marker text.toList then do
    let found := sightings text.toList
    Noted.noteAll ((unterminatedOffsets found).map .unterminated)
    routesOf (closedArguments found)
  else pure []

/-- A text in which the word of the marker does not occur has no routes
and no notices. -/
theorem extract_of_not_occursIn {text : String} (h : occursIn marker text.toList = false) :
    extract text = ⟨[], []⟩ := by
  simp only [extract, h]
  rfl

end RouteDoc.Docblock
