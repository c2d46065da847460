import Mathlib.Data.List.Infix
import RouteDoc.Proofs.Docblock.Profile
import RouteDoc.Proofs.Docblock.Url
import RouteDoc.Proofs.Json.Members
import RouteDoc.Proofs.Text.Search

/-!
# `RouteDoc.Proofs.Docblock.WellFormed`: what every extracted route is like

A text may be anything: its markers may be unterminated, its attributes
repeated, its metadata wrong. A route that comes out of it nevertheless
has a shape of its own, which two invariants explain.

The first one is about characters. Unfolding takes the line feeds away
and unquoting the quotes and the padding, and neither the cut into fields
nor the composition of a URL brings any character in. So the URL and the
name of the arguments are clean at every field (`clean_addField`), and a
composed URL is clean if both its parts are.

The second one is about profiles. A profile of a marker is in one piece
(`profileOf_eq`): every default value is declared, either by a
requirement or on its own, and never twice.

* `clean_ofText`: the URL and the name of any arguments.
* `isMarkerProfile_profileOf`: the profile of a marker.
* `isMarkerRoute_of_mem_extract`: all of this for every route of every
  text.
-/

set_option autoImplicit false

namespace RouteDoc.Docblock

open RouteDoc.Text

variable {s : List Char} {c : Char}

/-! ### Characters that do not get through -/

/-- The text has no quote and no line feed. -/
def Clean (s : List Char) : Prop := ∀ c ∈ s, c ≠ '"' ∧ c ≠ '\'' ∧ c ≠ '\n'

instance (s : List Char) : Decidable (Clean s) :=
  inferInstanceAs (Decidable (∀ c ∈ s, _))

/-- Taking the margin of a line away adds no character. -/
theorem mem_of_mem_withoutMargin (h : c ∈ withoutMargin s) : c ∈ s :=
  mem_of_mem_trim ((List.dropWhile_suffix _).subset (mem_of_mem_trim h))

/-- Unfolding leaves no line feed: it cuts at all of them and joins the
lines by spaces. -/
theorem not_mem_unfold (text : List Char) : '\n' ∉ unfold text := by
  have hlines : ∀ line ∈ ((text.splitOn '\n').map withoutMargin).filter (!·.isEmpty),
      ∀ c ∈ line, c ≠ '\n' := by
    intro line hline c hc
    obtain ⟨whole, hwhole, rfl⟩ := List.mem_map.1 (List.mem_filter.1 hline).1
    rintro rfl
    exact not_mem_of_mem_splitOn hwhole (mem_of_mem_withoutMargin hc)
  exact fun h => forall_mem_intercalate (by simp) hlines '\n' h rfl

/-- Fields have the characters of the text that was cut, since they give it
back when they are joined. -/
theorem mem_of_mem_splitFields {field : List Char} (hfield : field ∈ splitFields s)
    (hc : c ∈ field) : c ∈ s := by
  rw [← intercalate_splitFields s]
  exact (infix_intercalate hfield).subset hc

/-- A text without its quotes is clean, if it is on one line. -/
theorem clean_unquote (h : '\n' ∉ s) : Clean (unquote s) := by
  intro c hc
  obtain ⟨hmem, hquote⟩ := List.mem_filter.1 (mem_of_mem_trim hc)
  simp only [Bool.and_eq_true, bne_iff_ne, ne_eq] at hquote
  refine ⟨hquote.1, hquote.2, ?_⟩
  rintro rfl
  exact h hmem

/-- Nor has it any padding: that goes after the quotes. -/
theorem unpadded_unquote (s : List Char) : Unpadded (unquote s) := unpadded_trim _

/-! ### The arguments of a marker -/

namespace Arguments

variable {a : Arguments}

/-- The URL and the name are clean, and the name has no padding. -/
structure IsClean (a : Arguments) : Prop where
  url : Clean a.url.toList
  name : Clean a.name.toList
  unpadded : Unpadded a.name.toList

/-- Arguments that say nothing are clean. -/
theorem isClean_empty : IsClean empty := ⟨by decide, by decide, by decide⟩

/-- One more field keeps the arguments clean, whatever it says: URLs, names
and keys lose their quotes and their padding. -/
theorem isClean_addField (h : a.IsClean) {field : List Char} (hfield : '\n' ∉ field) :
    (a.addField field).IsClean := by
  have hline : '\n' ∉ trim field := fun hmem => hfield (mem_of_mem_trim hmem)
  simp only [addField]
  split
  · exact h
  · split
    · -- A URL by itself.
      exact ⟨by simpa using clean_unquote hline, h.name, h.unpadded⟩
    · next key value hcut =>
      have hvalue : '\n' ∉ value := by
        intro hmem
        rw [(splitOnce_eq_some hcut).2] at hline
        exact hline (by simp [hmem])
      split
      · exact ⟨h.url, by simpa using clean_unquote hvalue, by simpa using unpadded_unquote value⟩
      · split
        · exact ⟨by simpa using clean_unquote hvalue, h.name, h.unpadded⟩
        · exact ⟨h.url, h.name, h.unpadded⟩

/-- The arguments of any marker are clean. Unfolding puts them on one line,
and they are read field by field. -/
theorem isClean_ofText (text : List Char) : (ofText text).IsClean := by
  refine List.foldlRecOn (splitFields (unfold text)) addField isClean_empty
    fun a ha field hfield => isClean_addField ha fun hmem => ?_
  exact not_mem_unfold text (mem_of_mem_splitFields hfield hmem)

end Arguments

/-! ### URLs -/

/-- A URL that is composed of clean parts is clean. -/
theorem clean_composeUrl {base relative : List Char} (hbase : Clean base)
    (hrelative : Clean relative) : Clean (composeUrl base relative) :=
  fun c hc => (mem_of_mem_composeUrl hc).elim (hbase c) (hrelative c)

/-! ### Profiles -/

/-- A profile as markers have it: path parameters of type text, the
required ones first, with the default values that are recorded, each of
which is declared. -/
structure IsMarkerProfile (p : Profile) : Prop where
  verb : p.verb = .get
  produces : p.produces = "application/xml"
  inPath : ∀ q ∈ p.parameters, q.location = .path ∧ q.type = "string"
  distinct : (p.parameters.map Parameter.name).Nodup
  declared : ∀ name ∈ p.defaults.keys, ∃ q ∈ p.parameters, q.name = name
  default : ∀ q ∈ p.parameters, q.default = (p.defaults.get? q.name).getD ""
  required : ∀ q ∈ p.parameters, p.defaults.get? q.name = none → q.required = true
  requiredFirst : p.parameters.Pairwise fun q later => later.required = true → q.required = true

variable {defaults : OrderedMap String String} {required : List String} {q : Parameter}

/-- A parameter of a marker comes from a requirement or from a default
value of another name. -/
theorem mem_parametersOf_iff :
    q ∈ parametersOf defaults required ↔
      (∃ name ∈ required, q =
        { name := name, location := .path, required := true, type := "string",
          default := (defaults.get? name).getD "" }) ∨
      ∃ name value, defaults.get? name = some value ∧ name ∉ required ∧ q =
        { name := name, location := .path, required := false, type := "string",
          default := value } := by
  rw [parametersOf, List.mem_append, List.mem_map, List.mem_map]
  refine or_congr ?_ ?_
  · constructor
    · rintro ⟨name, hname, rfl⟩
      exact ⟨name, hname, rfl⟩
    · rintro ⟨name, hname, rfl⟩
      exact ⟨name, hname, rfl⟩
  · constructor
    · rintro ⟨⟨name, value⟩, hpair, rfl⟩
      obtain ⟨hmem, hnot⟩ := List.mem_filter.1 hpair
      exact ⟨name, value, OrderedMap.mem_entries_iff.1 hmem, by simpa using hnot, rfl⟩
    · rintro ⟨name, value, hget, hnot, rfl⟩
      exact ⟨(name, value),
        List.mem_filter.2 ⟨OrderedMap.mem_entries_iff.2 hget, by simpa using hnot⟩, rfl⟩

/-- The required parameters stand before the optional ones. -/
theorem pairwise_parametersOf (defaults : OrderedMap String String) (required : List String) :
    (parametersOf defaults required).Pairwise fun q later =>
      later.required = true → q.required = true := by
  rw [parametersOf, List.pairwise_append]
  refine ⟨?_, ?_, ?_⟩
  · rw [List.pairwise_map]
    exact List.pairwise_of_forall fun _ _ _ => rfl
  · rw [List.pairwise_map]
    exact List.pairwise_of_forall fun _ _ hlater => hlater
  · intro q hq _ _ _
    obtain ⟨name, -, rfl⟩ := List.mem_map.1 hq
    rfl

/-- Whatever pairs and keys have been read, the profile that is made of them
is one of a marker. -/
theorem isMarkerProfile_profileOf (pairs : List (String × String)) (h : required.Nodup) :
    IsMarkerProfile (profileOf pairs required) := by
  rw [profileOf_eq pairs h]
  generalize OrderedMap.ofList pairs = defaults
  refine
    { verb := rfl
      produces := rfl
      inPath := fun q hq => ?_
      distinct := nodup_names_parametersOf defaults h
      declared := fun name hname => ?_
      default := fun q hq => ?_
      required := fun q hq hnone => ?_
      requiredFirst := pairwise_parametersOf defaults required }
  · rcases mem_parametersOf_iff.1 hq with ⟨name, -, rfl⟩ | ⟨name, value, -, -, rfl⟩ <;>
      exact ⟨rfl, rfl⟩
  · by_cases hrequired : name ∈ required
    · exact ⟨_, mem_parametersOf_iff.2 (Or.inl ⟨name, hrequired, rfl⟩), rfl⟩
    · -- A default value without a requirement is declared on its own.
      obtain ⟨⟨_, value⟩, hpair, rfl⟩ := List.mem_map.1 hname
      have hget := OrderedMap.mem_entries_iff.1 hpair
      exact ⟨_, mem_parametersOf_iff.2 (Or.inr ⟨_, value, hget, hrequired, rfl⟩), rfl⟩
  · rcases mem_parametersOf_iff.1 hq with ⟨name, -, rfl⟩ | ⟨name, value, hget, -, rfl⟩
    · rfl
    · show value = (defaults.get? name).getD ""
      rw [hget]
      rfl
  · rcases mem_parametersOf_iff.1 hq with ⟨name, -, rfl⟩ | ⟨name, value, hget, -, rfl⟩
    · rfl
    · exact absurd (hget.symm.trans hnone) (by simp)

/-- The keys of a block of requirements are distinct, because repeated
keys of an object are merged. -/
theorem nodup_of_requirementKeys {value : String} {keys : List String}
    (h : requirementKeys value = .ok keys) : keys.Nodup := by
  unfold requirementKeys at h
  split at h
  · next members hparse =>
    obtain rfl := Except.ok.inj h
    exact Json.nodup_keys_of_parse hparse
  · cases h

/-- The profile of a marker comes from some default values and some
requirements. -/
theorem isMarkerProfile_of_profile? {a : Arguments} {p : Profile} (h : profile? a = .ok p) :
    IsMarkerProfile p := by
  rw [profile?_eq] at h
  cases hdefaults : (a.attributes.get? "defaults").elim (pure []) defaultPairs with
  | error fault =>
      rw [hdefaults] at h
      cases h
  | ok pairs =>
      cases hrequired : (a.attributes.get? "requirements").elim (pure []) requirementKeys with
      | error fault =>
          rw [hdefaults, hrequired] at h
          cases h
      | ok required =>
          rw [hdefaults, hrequired] at h
          have hnodup : required.Nodup := by
            cases hvalue : a.attributes.get? "requirements" with
            | none =>
                rw [hvalue] at hrequired
                obtain rfl := Except.ok.inj hrequired
                exact List.nodup_nil
            | some value =>
                rw [hvalue] at hrequired
                exact nodup_of_requirementKeys hrequired
          obtain rfl := Except.ok.inj h
          exact isMarkerProfile_profileOf pairs hnodup

/-! ### Routes -/

/-- A route as markers declare it: a clean name that is not empty and has
no padding, a clean URL without two slashes side by side, and a profile
for one verb only. -/
structure IsMarkerRoute (r : Route) : Prop where
  name_ne : r.name ≠ ""
  name_unpadded : Unpadded r.name.toList
  name_clean : Clean r.name.toList
  url_clean : Clean r.url.toList
  url_slashes : ¬['/', '/'] <:+: r.url.toList
  profile : ∃ p, r.profiles.entries = [(.get, p)] ∧ IsMarkerProfile p

/-- A profile that is attached to a route without verbs is its only one, filed
under its own verb. -/
theorem entries_attach_bare {url name : String} {p : Profile} {verb : Verb}
    (h : p.verb = verb) : ((Route.bare url name).attach p).profiles.entries = [(verb, p)] := by
  subst h
  rfl

/-- A marker that can be read has the shape of a route because its name is
not empty and its arguments are clean, and so is the URL that is put
together from two clean ones. -/
theorem isMarkerRoute_of_route? {base : String} {a : Arguments} {r : Route}
    (hbase : Clean base.toList) (ha : a.IsClean) (h : route? base a = .ok (some r)) :
    IsMarkerRoute r := by
  unfold route? at h
  split at h
  · cases h
  · next hnot =>
    cases hprofile : profile? a with
    | error fault =>
        rw [hprofile] at h
        cases h
    | ok p =>
        rw [hprofile] at h
        obtain rfl := Option.some.inj (Except.ok.inj h)
        have hprofileIs : IsMarkerProfile p := isMarkerProfile_of_profile? hprofile
        have hurl : ((Route.bare (urlOf base a) a.name).attach p).url.toList
            = composeUrl base.toList a.url.toList := String.toList_ofList
        exact
          { name_ne := (not_or.1 hnot).1
            name_unpadded := ha.unpadded
            name_clean := ha.name
            url_clean := by
              rw [hurl]
              exact clean_composeUrl hbase ha.url
            url_slashes := by
              rw [hurl]
              exact not_infix_collapseSlashes _
            profile := ⟨p, entries_attach_bare hprofileIs.verb, hprofileIs⟩ }

/-- Every route behind a clean base URL is one of a marker. Each comes from
one list of arguments, so the induction is on these. -/
theorem isMarkerRoute_of_mem_routesBelow {base : String} (hbase : Clean base.toList)
    {found : List (List Char)} {r : Route} (h : r ∈ (routesBelow base found).value) :
    IsMarkerRoute r := by
  induction found with
  | nil => cases h
  | cons arguments found ih =>
      rw [routesBelow] at h
      cases hroute : route? base (Arguments.ofText arguments) with
      | error fault =>
          rw [hroute] at h
          exact ih h
      | ok result =>
          rw [hroute] at h
          cases result with
          | none => exact ih h
          | some route =>
              rcases List.mem_cons.1 h with rfl | h
              · exact isMarkerRoute_of_route? hbase (Arguments.isClean_ofText arguments) hroute
              · exact ih h

/-- Every route of every text is one that a marker can declare. This asks
nothing of the text: what cannot be read gives no route. -/
theorem isMarkerRoute_of_mem_extract (text : String) :
    ∀ r ∈ (extract text).value, IsMarkerRoute r := by
  intro r hr
  unfold extract at hr
  split at hr
  · -- The first marker gives the base URL, which is clean like any other.
    have hroutes : r ∈ (routesOf (closedArguments (sightings text.toList))).value := hr
    cases hfound : closedArguments (sightings text.toList) with
    | nil =>
        rw [hfound] at hroutes
        cases hroutes
    | cons first rest =>
        rw [hfound] at hroutes
        exact isMarkerRoute_of_mem_routesBelow (Arguments.isClean_ofText first).url hroutes
  · cases hr

/-- A marker that is never closed, a base URL with slashes at its end, and
a marker that names itself twice, has quotes in odd places and gives keys
in both blocks and more than once in each. -/
def crowdedText : String :=
  "@Route(\"@Route(\"/a//\")@Route(\"//b'\", name=\"c\",\n * name=\"'d \", "
    ++ "defaults=\x7b\"i\"=1, 'p'=2, i=3\x7d, "
    ++ "requirements=\x7b\"i\"=\"\", \"p'\"=\"\", \"i\"=\"\"\x7d)"

/-- The route of that text. A quote in the key of a requirement stays, so
that `p` and `p'` are two parameters. -/
def crowdedRoute : Route :=
  (Route.bare "/a/b" "d").attach
    { verb := .get
      produces := "application/xml"
      parameters := [
        { name := "i", location := .path, required := true, type := "string", default := "3" },
        { name := "p'", location := .path, required := true, type := "string", default := "" },
        { name := "p", location := .path, required := false, type := "string", default := "2" }]
      defaults := ⟨[("i", "3"), ("p", "2")], by decide⟩ }

/-- The crowded text has such a route, with a requirement, a default value for
it, and another one. -/
theorem isMarkerRoute_crowdedRoute :
    crowdedRoute ∈ (extract crowdedText).value ∧ IsMarkerRoute crowdedRoute := by
  have hmem : crowdedRoute ∈ (extract crowdedText).value := by decide +kernel
  exact ⟨hmem, isMarkerRoute_of_mem_extract crowdedText crowdedRoute hmem⟩

end RouteDoc.Docblock
