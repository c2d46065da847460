import RouteDoc.OrderedMap
import RouteDoc.Parameter
import RouteDoc.Verb

/-!
# `RouteDoc.Route`: routes and their profiles

A route is a URL with a name, and a profile for each verb that it
answers. A profile lists the parameters and the default values of one
verb. Verbs, parameters and default values stand in the order in which
they were first added; adding one again overwrites it in its place.

A profile names its verb itself, and a route files it under that name.
Nothing in the types keeps the two equal, so what reads a profile by its
place says which of the two it means.

* `verbs_attach`: an attached verb keeps its place or comes last.
* `profile?_attach_self`, `profile?_attach_of_ne`: it has the attached
  profile, and every other verb has the profile that it had.
-/

set_option autoImplicit false

namespace RouteDoc

/-- The content type of an answer unless another one is given. -/
def defaultContentType : String := "application/xml"

/-- What a route takes and gives under one verb. -/
structure Profile where
  /-- The verb. -/
  verb : Verb
  /-- The content type of the answer. -/
  produces : String
  /-- The declared parameters, one per name. -/
  parameters : List Parameter
  /-- The default values by parameter name. A value may be recorded for
  a name that is not declared. -/
  defaults : OrderedMap String String
  deriving DecidableEq, Repr

namespace Profile

/-- A profile that declares nothing. -/
def empty (verb : Verb) : Profile :=
  { verb, produces := defaultContentType, parameters := [], defaults := ∅ }

/-- The declared parameter named `name`. -/
def parameter? (p : Profile) (name : String) : Option Parameter :=
  Keyed.find? Parameter.name name p.parameters

/-- Whether a parameter named `name` is declared. -/
def hasParameter (p : Profile) (name : String) : Bool := (p.parameter? name).isSome

/-- The profile with `param` declared. -/
def addParameter (p : Profile) (param : Parameter) : Profile :=
  { p with parameters := Keyed.put Parameter.name param p.parameters }

/-- The profile with a default value recorded. Declaring the parameter
is a separate step. -/
def addDefault (p : Profile) (name value : String) : Profile :=
  { p with defaults := p.defaults.insert name value }

/-- The default value recorded for `name`. -/
def default? (p : Profile) (name : String) : Option String := p.defaults.get? name

end Profile

/-- A URL with a name and a profile per verb. -/
structure Route where
  /-- The URL, with its placeholders. -/
  url : String
  /-- The name. -/
  name : String
  /-- The profiles, in the order in which the verbs were attached. -/
  profiles : OrderedMap Verb Profile
  deriving DecidableEq, Repr

namespace Route

/-- A route that answers no verb yet. -/
def bare (url name : String) : Route := { url, name, profiles := ∅ }

/-- The verbs that the route answers, first attached first. -/
def verbs (r : Route) : List Verb := r.profiles.keys

/-- The profile of a verb. -/
def profile? (r : Route) (v : Verb) : Option Profile := r.profiles.get? v

/-- The route with the profile `p` for the verb that `p` names. A verb
that is there already keeps its place. -/
def attach (r : Route) (p : Profile) : Route :=
  { r with profiles := r.profiles.insert p.verb p }

/-- The route with `f` applied to the profile of `v`; a verb that is
not there is attached first, with the empty profile. -/
def update (r : Route) (v : Verb) (f : Profile → Profile) : Route :=
  { r with profiles := r.profiles.update v (Profile.empty v) f }

/-- The profile that was attached first. -/
def first? (r : Route) : Option Profile := r.profiles.head?.map Prod.snd

variable {r : Route} {w : Verb} {p : Profile}

/-- An attached verb keeps its place or comes last. -/
theorem verbs_attach :
    (r.attach p).verbs = if p.verb ∈ r.verbs then r.verbs else r.verbs ++ [p.verb] :=
  OrderedMap.keys_insert

/-- An attached profile is found under the verb that it names. -/
@[simp] theorem profile?_attach_self : (r.attach p).profile? p.verb = some p :=
  OrderedMap.get?_insert_self

/-- Attaching a profile leaves the other verbs alone. -/
theorem profile?_attach_of_ne (h : w ≠ p.verb) : (r.attach p).profile? w = r.profile? w :=
  OrderedMap.get?_insert_of_ne h

end Route

end RouteDoc
