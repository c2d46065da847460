import RouteDoc.Proofs.Dump.Document
import RouteDoc.Proofs.Dump.Frame

/-!
# `RouteDoc.Proofs.Dump.Effect`: what an entry makes of its route

An entry goes through three passes under every verb that it is about, on
a route that may already declare parameters of its own. A pass puts its
parameters over those of the passes before, or does not, and none of them
moves a parameter that is there. This is the whole effect, said of the
description as the dump has it.

* `pieces_of_urlOf`: the URL is the path with plain slashes.
* `verbsOf_methodsOf`, `unsupportedMethods_methodsOf`: the verbs that the
  entry is about, and the methods that are reported.
* `declares_applyToProfile`: the profile of one verb (`Declares`).
* `importEntry_effect`: the route that is found under the name of the
  entry.
-/

set_option autoImplicit false

namespace RouteDoc

open RouteDoc.Text

/-! ### Updates of several verbs -/

namespace Route

variable {vs : List Verb} {v : Verb}

/-- Updating the profiles of distinct verbs updates each of them once and
leaves every other verb alone. A verb without a profile is updated from the
empty one. -/
theorem profile?_foldl_update_of_nodup (f : Profile → Profile) (h : vs.Nodup) (r : Route) :
    (vs.foldl (fun r v => r.update v f) r).profile? v
      = if v ∈ vs then some (f ((r.profile? v).getD (.empty v))) else r.profile? v := by
  induction vs generalizing r with
  | nil => simp
  | cons w vs ih =>
      obtain ⟨hw, hnodup⟩ := List.nodup_cons.1 h
      rw [List.foldl_cons, ih hnodup, profile?_update]
      by_cases hv : v = w
      · subst hv
        simp [hw]
      · simp [hv]

end Route

namespace Dump

open Route

variable {s : RouteSet} {e : Entry} {p q : Profile} {name url path : String}
  {description : Json}

/-! ### The verbs -/

/-- The member `method` of a description, if it is a text. -/
def methodText? : Json → Option String
  | .object fields => (Json.member? "method" fields).bind Json.string?
  | _ => none

/-- The methods that a description names one by one, cut at the bars. It
names none unless its member `method` is a text that is neither blank nor,
in any case, the word for all methods. -/
def namedMethods? (description : Json) : Option (List String) :=
  (methodText? description).bind fun methods =>
    if trim methods.toList = [] ∨ asciiLower (trim methods.toList) = "any".toList then none
    else some ((methods.toList.splitOn '|').map String.ofList)

/-- The verbs that a description is about: all of them if it names no
methods, and else those among its methods, in order of first
appearance. -/
def affectedVerbs (description : Json) : List Verb :=
  match namedMethods? description with
  | none => [.get, .post, .put, .delete]
  | some methods => (methods.filterMap Verb.parse?).eraseDups

/-- The methods that a description names and that are no verbs. -/
def refusedMethods (description : Json) : List String :=
  ((namedMethods? description).getD []).filter fun method => (Verb.parse? method).isNone

/-- A method text stands for any method when it is blank or the word "any" in
any mixture of cases. -/
theorem isAnyMethod_iff {methods : List Char} :
    isAnyMethod methods = true ↔
      trim methods = [] ∨ asciiLower (trim methods) = "any".toList := by
  have hany : asciiLower anyMethod.toList = "any".toList := by decide
  simp [isAnyMethod, hany]

/-- The method text that a description without methods is given stands for any
method. -/
theorem isAnyMethod_anyMethod : isAnyMethod anyMethod.toList = true := by
  decide

/-- The methods that a description names are read off its method text, cut at
the bars. A description without a usable method is about all of them, as is
one that says "any". -/
theorem namedMethods?_eq (description : Json) :
    namedMethods? description
      = if isAnyMethod (methodsOf description).toList then none
        else some (((methodsOf description).toList.splitOn '|').map String.ofList) := by
  have hmethods : methodsOf description = (methodText? description).getD anyMethod := by
    cases description <;> rfl
  rw [namedMethods?, hmethods]
  cases methodText? description with
  | none => rw [Option.getD_none, if_pos isAnyMethod_anyMethod, Option.bind_none]
  | some methods => simp only [Option.bind_some, Option.getD_some, isAnyMethod_iff]

/-- The verbs of the method text are those that the description affects: all
four if it names no methods, and otherwise the named ones that are verbs, each
once and in the order in which they come. -/
theorem verbsOf_methodsOf (description : Json) :
    verbsOf (methodsOf description) = affectedVerbs description := by
  rw [affectedVerbs, namedMethods?_eq, verbsOf]
  split
  · rfl
  · simp [Keyed.foldl_append_new, List.filterMap_map]

/-- The methods that are warned about are the named ones that are no verbs. -/
theorem unsupportedMethods_methodsOf (description : Json) :
    unsupportedMethods (methodsOf description) = refusedMethods description := by
  rw [refusedMethods, namedMethods?_eq, unsupportedMethods]
  split <;> rfl

/-! ### One profile -/

/-- The names of the parameters of a profile, in order. -/
def names (p : Profile) : List String := p.parameters.map Parameter.name

/-- A placeholder adds its name at the end, unless a parameter has this name. -/
theorem names_addPlaceholder (p : Profile) (name : String) :
    names (addPlaceholder p name) = if name ∈ names p then names p else names p ++ [name] := by
  have hdeclared : p.hasParameter name = true ↔ name ∈ names p := by
    have hnone : p.parameter? name = none ↔ name ∉ names p := Keyed.find?_eq_none_iff
    rw [Profile.hasParameter, Option.isSome_iff_ne_none, ne_eq, hnone, not_not]
  unfold addPlaceholder
  by_cases hmem : name ∈ names p
  · rw [if_pos (hdeclared.2 hmem), if_pos hmem]
  · rw [if_neg (mt hdeclared.1 hmem)]
    exact Keyed.keys_put

/-- The names after all three passes: those of the profile stay in front, and
behind them come the new ones among the default values, the requirements and
the placeholders, each where it comes first. -/
theorem names_applyToProfile (e : Entry) (p : Profile) :
    names (e.applyToProfile p)
      = names p ++ (e.defaults.map Prod.fst ++ e.requirements.map Prod.fst
          ++ Placeholder.names e.url).eraseDups.filter (· ∉ names p) := by
  have hdeclared : e.declared.map Parameter.name
      = e.defaults.map Prod.fst ++ e.requirements.map Prod.fst := by
    simp only [Entry.declared, List.map_append, List.map_map]
    rfl
  have hdeclare : names (e.declare p)
      = (e.defaults.map Prod.fst ++ e.requirements.map Prod.fst).foldl
          (fun ks k => if k ∈ ks then ks else ks ++ [k]) (names p) := by
    rw [names, parameters_declare, Keyed.keys_foldl_put, hdeclared, Keyed.foldl_append_new]
    rfl
  -- All three passes append the names that are new, so they do so as one.
  rw [applyToProfile_eq, ← Keyed.foldl_append_new, List.foldl_append, ← hdeclare]
  exact (List.foldl_hom names fun p name => (names_addPlaceholder p name).symm).symm

/-- The placeholders declare parameters and nothing else: the verb, the media
types and the default values of the profile stay. -/
theorem foldl_addPlaceholder_fields (placeholders : List String) (p : Profile) :
    (placeholders.foldl addPlaceholder p).verb = p.verb ∧
      (placeholders.foldl addPlaceholder p).produces = p.produces ∧
      (placeholders.foldl addPlaceholder p).defaults = p.defaults := by
  refine List.foldlRecOn (motive := fun q : Profile =>
    q.verb = p.verb ∧ q.produces = p.produces ∧ q.defaults = p.defaults) placeholders _
      ⟨rfl, rfl, rfl⟩ ?_
  intro q hq name _
  unfold addPlaceholder
  split
  · exact hq
  · exact hq

/-- The profile `q` is what an entry with these default values and
requirements makes of `p`. -/
structure Declares (url : String) (defaults requirements : List (String × String))
    (p q : Profile) : Prop where
  /-- A requirement overwrites everything. Its parameter is carried in the
  path if the URL has the name in braces, and is a whole number if the
  requirement says so. It has no default value. -/
  requirement : ∀ {name value}, lastWith name requirements = some (name, value) →
    q.parameter? name = some
      { name
        location := if (Placeholder.text name).toList <:+: url.toList then .path else .form
        required := true
        type := if asciiLower value.toList = "\\\\d+".toList then "integer" else "string"
        default := "" }
  /-- A default value overwrites what was there. -/
  default : ∀ {name value}, name ∉ requirements.map Prod.fst →
    lastWith name defaults = some (name, value) →
    q.parameter? name = some
      { name, location := .form, required := false, type := "string", default := value }
  /-- Every other parameter stays as it is, placeholder or not. -/
  kept : ∀ {name param}, name ∉ requirements.map Prod.fst → name ∉ defaults.map Prod.fst →
    p.parameter? name = some param → q.parameter? name = some param
  /-- A placeholder that nothing else declares is a required parameter of
  the path. -/
  placeholder : ∀ {name}, name ∉ requirements.map Prod.fst → name ∉ defaults.map Prod.fst →
    p.parameter? name = none → name ∈ Placeholder.names url →
    q.parameter? name = some
      { name
        location := .path
        required := true
        type := if "id".toList <:+: asciiLower name.toList then "integer" else "string"
        default := "" }
  /-- There are no other parameters. -/
  absent : ∀ {name}, name ∉ requirements.map Prod.fst → name ∉ defaults.map Prod.fst →
    p.parameter? name = none → name ∉ Placeholder.names url → q.parameter? name = none
  /-- Parameters keep their places. New ones come last: default values,
  then requirements, then placeholders. -/
  order : names q = names p
    ++ (defaults.map Prod.fst ++ requirements.map Prod.fst
        ++ Placeholder.names url).eraseDups.filter (· ∉ names p)
  /-- Default values are recorded, whether or not a requirement overwrites
  their parameters. -/
  recorded : ∀ {name value}, lastWith name defaults = some (name, value) →
    q.default? name = some value
  /-- Other default values stay as they are. -/
  unrecorded : ∀ {name}, name ∉ defaults.map Prod.fst → q.default? name = p.default? name
  /-- Recorded values keep their places, and new ones come last. -/
  recordedOrder : q.defaults.keys = p.defaults.keys
    ++ (defaults.map Prod.fst).eraseDups.filter (· ∉ p.defaults.keys)
  /-- The verb and the content type stay as they are. -/
  verb : q.verb = p.verb
  produces : q.produces = p.produces

/-- The parameter of a requirement, written out. It is in the path if the URL
has its placeholder, and an integer if the requirement is the one for digits. -/
theorem requiredParameter_eq (url name value : String) :
    requiredParameter url name value =
      { name
        location := if (Placeholder.text name).toList <:+: url.toList then .path else .form
        required := true
        type := if asciiLower value.toList = "\\\\d+".toList then "integer" else "string"
        default := "" } := by
  simp only [requiredParameter, inTemplate, occursIn_iff, typeOfRequirement]
  rfl

/-- A placeholder is an integer when its name has "id" in it, in any mixture
of cases. -/
theorem typeOfPlaceholder_eq (name : String) :
    typeOfPlaceholder name
      = if "id".toList <:+: asciiLower name.toList then "integer" else "string" := by
  simp only [typeOfPlaceholder, occursIn_iff]
  rfl

/-- A default value is found where the last one of its name was put; a name
without one keeps what the profile had. -/
theorem default?_applyToProfile (e : Entry) (p : Profile) (name : String) :
    (e.applyToProfile p).default? name
      = ((lastWith name e.defaults).map Prod.snd).or (p.default? name) := by
  rw [applyToProfile_eq, Profile.default?, (foldl_addPlaceholder_fields _ _).2.2, OrderedMap.get?,
    entries_declare, Keyed.find?_foldl_put, Option.map_or]
  rfl

/-- The names with default values stay in their places, and the new ones
follow in the order in which the entry first has them. -/
theorem keys_defaults_applyToProfile (e : Entry) (p : Profile) :
    (e.applyToProfile p).defaults.keys = p.defaults.keys
      ++ (e.defaults.map Prod.fst).eraseDups.filter (· ∉ p.defaults.keys) := by
  rw [applyToProfile_eq, (foldl_addPlaceholder_fields _ _).2.2, OrderedMap.keys, entries_declare,
    Keyed.keys_foldl_put]
  rfl

/-- Applying an entry to a profile declares what `Declares` asks for:
requirements win over default values, these over the parameters there were,
and placeholders are declared only when nothing else has their name. -/
theorem declares_applyToProfile (e : Entry) (p : Profile) :
    Declares e.url e.defaults e.requirements p (e.applyToProfile p) where
  requirement {name value} h := by
    rw [parameter?_applyToProfile, h, ← requiredParameter_eq]
    rfl
  default {name value} hrequirement h := by
    rw [parameter?_applyToProfile, lastWith_eq_none_iff.2 hrequirement, h]
    rfl
  kept {name param} hrequirement hdefault h := by
    rw [parameter?_applyToProfile, lastWith_eq_none_iff.2 hrequirement,
      lastWith_eq_none_iff.2 hdefault, h]
    rfl
  placeholder {name} hrequirement hdefault h hname := by
    rw [parameter?_applyToProfile, lastWith_eq_none_iff.2 hrequirement,
      lastWith_eq_none_iff.2 hdefault, h, if_pos hname, ← typeOfPlaceholder_eq]
    rfl
  absent {name} hrequirement hdefault h hname := by
    rw [parameter?_applyToProfile, lastWith_eq_none_iff.2 hrequirement,
      lastWith_eq_none_iff.2 hdefault, h, if_neg hname]
    rfl
  order := names_applyToProfile e p
  recorded {name value} h := by
    rw [default?_applyToProfile, h]
    rfl
  unrecorded {name} h := by
    rw [default?_applyToProfile, lastWith_eq_none_iff.2 h]
    rfl
  recordedOrder := keys_defaults_applyToProfile e p
  verb := by
    rw [applyToProfile_eq, (foldl_addPlaceholder_fields _ _).1, verb_declare]
  produces := by
    rw [applyToProfile_eq, (foldl_addPlaceholder_fields _ _).2.1, produces_declare]

/-! ### The route -/

/-- The URL of a description in pieces: with its escaped slashes plain, it is
the path cut at the escaped slashes and joined by plain ones. -/
theorem pieces_of_urlOf (h : pathOf? description = some path) :
    ∃ pieces : List (List Char), path.toList = ['\\', '/'].intercalate pieces ∧
      (∀ piece ∈ pieces, ¬['\\', '/'] <:+: piece) ∧
      (urlOf description).toList = ['/'].intercalate pieces := by
  rw [urlOf, h, Option.getD_some, onChars, String.toList_ofList]
  exact slashesUnescaped_plainSlashes path.toList

/-- When a description has a path, the warnings of its import are about the
methods that are no verbs, one for each and in their order. -/
theorem warnings_importEntry_of_path (h : pathOf? description = some path) (s : RouteSet)
    (name : String) :
    (importEntry s name description).warnings = (refusedMethods description).map
      fun method => "Unsupported HTTP method '" ++ method ++ "' skipped" := by
  have hentry : entryWarnings (name, description)
      = (unsupportedMethods (methodsOf description)).map .unsupportedMethod := by
    cases description with
    | object fields => simp only [entryWarnings, h]
    | _ => cases h
  rw [Noted.warnings, warnings_importEntry, hentry, unsupportedMethods_methodsOf, List.map_map]
  rfl

/-- An entry with a path changes the route of its name, or makes one. The
route keeps its URL and name. Its verbs keep their places, and the new
ones come last. The profiles of the verbs that the entry is not about
stay as they are; those of the others are what the entry makes of them.
The methods that are no verbs are reported. -/
theorem importEntry_effect (hs : s.Reachable) (h : pathOf? description = some path)
    (name : String) :
    let r := (s.find? name).getD (bare (urlOf description) name)
    (∃ pieces : List (List Char), path.toList = ['\\', '/'].intercalate pieces ∧
      (∀ piece ∈ pieces, ¬['\\', '/'] <:+: piece) ∧
      (urlOf description).toList = ['/'].intercalate pieces) ∧
    (∃ r', (importEntry s name description).value.find? name = some r' ∧
      r'.identity = r.identity ∧
      r'.verbs = r.verbs ++ (affectedVerbs description).filter (· ∉ r.verbs) ∧
      (∀ v ∉ affectedVerbs description, r'.profile? v = r.profile? v) ∧
      ∀ v ∈ affectedVerbs description, ∃ q, r'.profile? v = some q ∧
        Declares (urlOf description) (literalsUnder "defaults" description)
          (literalsUnder "requirements" description)
          ((r.profile? v).getD (.empty v)) q) ∧
    (importEntry s name description).warnings = (refusedMethods description).map
      fun method => "Unsupported HTTP method '" ++ method ++ "' skipped" := by
  intro r
  let e : Entry :=
    { name
      url := urlOf description
      verbs := affectedVerbs description
      defaults := literalsUnder "defaults" description
      requirements := literalsUnder "requirements" description }
  -- The whole effect is that of applying `e` to `r`, verb by verb.
  have hread : (Entry.read name description).value = some e := by
    rw [read_eq_of_path h, verbsOf_methodsOf]
  have hnodup : e.verbs.Nodup := nodup_verbs_of_read hread
  have hfind : (importEntry s name description).value.find? name = some (e.apply r) := by
    rw [value_importEntry, hread]
    exact hs.positioned.find?_updateByName_self _ _ _
  have hprofile : ∀ v, (e.apply r).profile? v
      = if v ∈ e.verbs then some (e.applyToProfile ((r.profile? v).getD (.empty v)))
        else r.profile? v :=
    fun v => profile?_foldl_update_of_nodup _ hnodup r
  refine ⟨pieces_of_urlOf h, ⟨e.apply r, hfind, ?_, ?_, fun v hv => ?_, fun v hv => ?_⟩,
    warnings_importEntry_of_path h s name⟩
  · exact Prod.ext ((keepsIdentity_apply e).1 r) ((keepsIdentity_apply e).2 r)
  · rw [Entry.apply, verbs_foldl_update, Keyed.eraseDups_eq_self hnodup]
  · rw [hprofile, if_neg hv]
  · exact ⟨_, by rw [hprofile, if_pos hv], declares_applyToProfile e _⟩

/-- A set with a route that declares parameters under two verbs. -/
def declaredSet : RouteSet :=
  let slug := { defaultParameter "slug" "start" with location := .query }
  let profile (v : Verb) := ((Profile.empty v).addDefault "page" "9").addParameter slug
  (RouteSet.insertByUrl ∅
    (((bare "/old" "post").attach (profile .put)).attach ((profile .get).addParameter
      (defaultParameter "page" "9")))).1

/-- A description in which default values, requirements and placeholders
overlap with each other and with what is there. -/
def overlappingDescription : Json := .object [
  ("path", .string "\\/posts\\/\x7bid\x7d/\x7bslug\x7d/\x7bgrid\x7d"),
  ("method", .string " post|HEAD|get|POST"),
  ("defaults", .object [("grid", .null), ("id", .string "7"), ("page", .bool true)]),
  ("requirements", .object [("id", .string "\\\\D+"), ("format", .string "html")])]

/-- A description whose default values, requirements and placeholders overlap
with each other and with the parameters of the route: `slug` is a placeholder
and stays as it was declared, `page` is overwritten by a default value, and
`id` by a requirement, though its default value is recorded as well. -/
theorem importEntry_effect_overlappingDescription :
    declaredSet.Reachable ∧
    pathOf? overlappingDescription
      = some "\\/posts\\/\x7bid\x7d/\x7bslug\x7d/\x7bgrid\x7d" ∧
    (∃ r, (importEntry declaredSet "post" overlappingDescription).value.find? "post" = some r ∧
      r.identity = ("/old", "post") ∧ r.verbs = [.put, .get, .post] ∧
      r.profile? .put = (declaredSet.find? "post").bind (Route.profile? · .put) ∧
      ∃ q, r.profile? .get = some q ∧
        names q = ["slug", "page", "grid", "id", "format"] ∧
        q.parameter? "slug" = some
          { name := "slug", location := .query, required := false, type := "string"
            default := "start" } ∧
        q.parameter? "page" = some
          { name := "page", location := .form, required := false, type := "string"
            default := "true" } ∧
        q.parameter? "id" = some
          { name := "id", location := .path, required := true, type := "integer"
            default := "" } ∧
        q.default? "id" = some "7") ∧
    (importEntry declaredSet "post" overlappingDescription).warnings
      = ["Unsupported HTTP method 'HEAD' skipped"] := by
  have hs : declaredSet.Reachable := RouteSet.Reachable.empty.insertByUrl _
  have hpath : pathOf? overlappingDescription
      = some "\\/posts\\/\x7bid\x7d/\x7bslug\x7d/\x7bgrid\x7d" := by decide +kernel
  obtain ⟨-, ⟨r, hfind, hidentity, hverbs, hothers, hprofiles⟩, hwarnings⟩ :=
    importEntry_effect hs hpath "post"
  obtain ⟨q, hget, hdeclares⟩ := hprofiles .get (by decide +kernel)
  refine ⟨hs, hpath, ⟨r, hfind, hidentity.trans (by decide +kernel),
    hverbs.trans (by decide +kernel), (hothers .put (by decide +kernel)).trans (by decide +kernel),
    q, hget, hdeclares.order.trans (by decide +kernel), ?_, ?_, ?_, ?_⟩,
    hwarnings.trans (by decide +kernel)⟩
  · exact hdeclares.kept (by decide +kernel) (by decide +kernel) (by decide +kernel)
  · exact hdeclares.default (by decide +kernel) (by decide +kernel)
  · have hlast : lastWith "id" (literalsUnder "requirements" overlappingDescription)
        = some ("id", "\\\\D+") := by decide +kernel
    exact (hdeclares.requirement hlast).trans (by decide +kernel)
  · exact hdeclares.recorded (by decide +kernel)

end Dump

end RouteDoc
