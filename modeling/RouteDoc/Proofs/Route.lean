import Mathlib.Data.List.DropRight
import RouteDoc.Proofs.Keyed
import RouteDoc.Route

/-!
# `RouteDoc.Proofs.Route`: a route after any changes

A route is changed in two ways: a verb is attached with an empty profile,
or the profile of a verb is edited, and the verb attached first if it is
not there. An edit declares a parameter, records a default value or sets
the content type. Whatever the order of the changes, the route keeps two
levels of maps in order of insertion: the verbs stand in the order in which
they first came, and so do the parameters and the default values of each.
A verb that is attached again loses what its profile held, and keeps its
place.

A profile names its verb, and a change files it under that name or makes
it with the name under which it files it. So no change brings the two
apart, and `Tracks` keeps that they are equal.

* `Route.verbs_update`, `Route.profile?_update`: what one update does.
* `Route.verbs_foldl_update`: the verbs after updates of several.
* `Profile.holds_foldl_apply`: an empty profile after a list of edits.
* `Route.Tracks.apply`: what a change does to the verbs and the profiles.
* `Route.insertionOrder_of_changeAll`: a route after a list of changes.
-/

set_option autoImplicit false

namespace RouteDoc

/-! ### Edits of a profile -/

namespace Profile

/-- An edit of a profile. -/
inductive Edit where
  /-- A parameter is declared. -/
  | addParameter (param : Parameter)
  /-- A default value is recorded. -/
  | addDefault (key value : String)
  /-- The content type of the answer is set. -/
  | setProduces (contentType : String)
  deriving DecidableEq, Repr

/-- The profile after one edit. -/
def Edit.apply (p : Profile) : Edit → Profile
  | addParameter param => p.addParameter param
  | addDefault key value => p.addDefault key value
  | setProduces contentType => { p with produces := contentType }

/-- The parameter that an edit declares. -/
def Edit.parameter? : Edit → Option Parameter
  | addParameter param => some param
  | _ => none

/-- The default value that an edit records, under its key. -/
def Edit.default? : Edit → Option (String × String)
  | addDefault key value => some (key, value)
  | _ => none

/-- The content type that an edit sets. -/
def Edit.contentType? : Edit → Option String
  | setProduces contentType => some contentType
  | _ => none

/-- A profile that holds what `edits` say, and nothing else. -/
structure Holds (p : Profile) (edits : List Edit) : Prop where
  /-- The content type is the one that was set last. -/
  produces : p.produces = (edits.filterMap Edit.contentType?).getLast?.getD defaultContentType
  /-- Of each name there is the parameter that was declared last, and the
  names stand in the order in which they were first declared. -/
  parameters : p.parameters = Keyed.latest Parameter.name (edits.filterMap Edit.parameter?)
  /-- Of each key there is the value that was recorded last, and the keys
  stand in the order in which they were first recorded. -/
  defaults : p.defaults.entries = Keyed.latest Prod.fst (edits.filterMap Edit.default?)

variable {p : Profile} {edits : List Edit}

/-- No edit touches the verb of a profile. -/
theorem verb_foldl_apply (edits : List Edit) (p : Profile) :
    (edits.foldl Edit.apply p).verb = p.verb := by
  induction edits generalizing p with
  | nil => rfl
  | cons edit edits ih =>
      rw [List.foldl_cons, ih]
      cases edit <;> rfl

/-- Of several settings of the content type, the last one counts; without
any, it stays as it is. -/
theorem produces_foldl_apply (edits : List Edit) (p : Profile) :
    (edits.foldl Edit.apply p).produces
      = (edits.filterMap Edit.contentType?).getLast?.getD p.produces := by
  induction edits generalizing p with
  | nil => rfl
  | cons edit edits ih =>
      rw [List.foldl_cons, ih]
      cases edit with
      | addParameter param => rfl
      | addDefault key value => rfl
      | setProduces contentType =>
          show _ = (contentType :: edits.filterMap Edit.contentType?).getLast?.getD p.produces
          rw [List.getLast?_cons]
          rfl

/-- Only the edits that declare a parameter touch the parameters, and each
puts its own under its name. -/
theorem parameters_foldl_apply (edits : List Edit) (p : Profile) :
    (edits.foldl Edit.apply p).parameters
      = (edits.filterMap Edit.parameter?).foldl
          (fun params param => Keyed.put Parameter.name param params) p.parameters := by
  induction edits generalizing p with
  | nil => rfl
  | cons edit edits ih =>
      rw [List.foldl_cons, ih]
      cases edit <;> rfl

/-- Only the edits that record a default value touch the default values, and
each puts its own under its key. -/
theorem entries_foldl_apply (edits : List Edit) (p : Profile) :
    (edits.foldl Edit.apply p).defaults.entries
      = (edits.filterMap Edit.default?).foldl
          (fun pairs pair => Keyed.put Prod.fst pair pairs) p.defaults.entries := by
  induction edits generalizing p with
  | nil => rfl
  | cons edit edits ih =>
      rw [List.foldl_cons, ih]
      cases edit <;> rfl

/-- An empty profile after a list of edits: each field depends on the edits
of its own kind, and each of the two lists grew from the empty one. -/
theorem holds_foldl_apply (verb : Verb) (edits : List Edit) :
    (edits.foldl Edit.apply (empty verb)).Holds edits where
  produces := produces_foldl_apply edits (empty verb)
  parameters := (parameters_foldl_apply edits (empty verb)).trans (Keyed.foldl_put_nil _)
  defaults := (entries_foldl_apply edits (empty verb)).trans (Keyed.foldl_put_nil _)

/-- No name is declared twice in a profile that has been made by edits, since
declaring a name again replaces the parameter. -/
theorem Holds.nodup_names (h : p.Holds edits) : (p.parameters.map Parameter.name).Nodup := by
  rw [h.parameters, ← Keyed.foldl_put_nil]
  exact Keyed.nodup_keys_foldl_put _ List.nodup_nil

end Profile

namespace Route

/-! ### Updates of a route -/

/-- The verbs of a route are those that have a profile. -/
theorem mem_verbs_iff {r : Route} {verb : Verb} :
    verb ∈ r.verbs ↔ ∃ p, r.profile? verb = some p := by
  have hnone : r.profile? verb = none ↔ verb ∉ r.verbs := OrderedMap.get?_eq_none_iff
  cases hprofile : r.profile? verb with
  | none => simpa [hprofile] using hnone
  | some p => simpa [hprofile] using hnone

/-- A verb that is changed keeps its place among the verbs, or comes last if
it is new. -/
theorem verbs_update (r : Route) (v : Verb) (f : Profile → Profile) :
    (r.update v f).verbs = if v ∈ r.verbs then r.verbs else r.verbs ++ [v] :=
  OrderedMap.keys_insert

/-- An update applies the function to the profile of its verb, or to an
empty one, and to no other profile. -/
theorem profile?_update (r : Route) (v w : Verb) (f : Profile → Profile) :
    (r.update v f).profile? w
      = if w = v then some (f ((r.profile? v).getD (.empty v))) else r.profile? w :=
  OrderedMap.get?_update _ _

/-- An updated verb keeps its place or comes last, after those that were
updated before it. -/
theorem verbs_foldl_update (f : Profile → Profile) (vs : List Verb) (r : Route) :
    (vs.foldl (fun r v => r.update v f) r).verbs
      = r.verbs ++ vs.eraseDups.filter (· ∉ r.verbs) := by
  rw [← Keyed.foldl_append_new]
  exact (List.foldl_hom verbs fun r v => (verbs_update r v f).symm).symm

/-! ### Changes of a route -/

/-- A change of a route. -/
inductive Change where
  /-- A verb is attached with an empty profile, which takes the place of
  the one that it had. -/
  | attach (v : Verb)
  /-- The profile of a verb is edited. A verb that is not there is attached
  first, even if there are no edits. -/
  | edit (v : Verb) (edits : List Profile.Edit)
  deriving DecidableEq, Repr

namespace Change

/-- The route after one change. -/
def apply (r : Route) : Change → Route
  | attach v => r.attach (.empty v)
  | edit v edits => r.update v fun p => edits.foldl Profile.Edit.apply p

/-- The verb that a change is about. -/
def verb : Change → Verb
  | attach v => v
  | edit v _ => v

/-- The edits that a change makes of the profile of `v`. -/
def editsOf (v : Verb) : Change → List Profile.Edit
  | attach _ => []
  | edit w edits => if w = v then edits else []

end Change

/-- The route after a list of changes. -/
def changeAll (r : Route) (changes : List Change) : Route := changes.foldl Change.apply r

/-- The edits of the profile of `v` since `v` was last attached with an
empty profile; all of them if it never was. -/
def editsSince (v : Verb) (changes : List Change) : List Profile.Edit :=
  (changes.rtakeWhile (· ≠ .attach v)).flatMap (Change.editsOf v)

/-- One more change starts the edits of its verb afresh if it attaches the
verb, and else adds its own edits to them. -/
theorem editsSince_append_singleton (v : Verb) (changes : List Change) (change : Change) :
    editsSince v (changes ++ [change])
      = if change = .attach v then [] else editsSince v changes ++ change.editsOf v := by
  rw [editsSince, List.rtakeWhile_concat]
  split
  · next h =>
    rw [if_neg (of_decide_eq_true h), List.flatMap_append, List.flatMap_singleton]
    rfl
  · next h =>
    rw [if_pos (by simpa using h)]
    rfl

/-- A changed verb keeps its place or comes last, whether it is attached or
edited. -/
theorem verbs_apply (r : Route) (change : Change) :
    (change.apply r).verbs
      = if change.verb ∈ r.verbs then r.verbs else r.verbs ++ [change.verb] := by
  cases change with
  | attach v => exact verbs_attach
  | edit v edits => exact verbs_update r v _

/-- What a change makes of every profile, where a verb that is not there
stands for an empty one. -/
theorem profile?_apply (r : Route) (change : Change) (v : Verb) :
    ((change.apply r).profile? v).getD (.empty v)
      = if change = .attach v then .empty v
        else (change.editsOf v).foldl Profile.Edit.apply ((r.profile? v).getD (.empty v)) := by
  cases change with
  | attach w =>
      show ((r.attach (.empty w)).profile? v).getD (.empty v) = _
      by_cases h : w = v
      · subst h
        rw [if_pos rfl]
        exact congrArg (Option.getD · _) (profile?_attach_self (p := .empty w))
      · rw [profile?_attach_of_ne (p := .empty w) (Ne.symm h),
          if_neg fun heq => h (Change.attach.inj heq)]
        rfl
  | edit w edits =>
      have hedit : Change.edit w edits ≠ .attach v := Change.noConfusion
      show ((r.update w _).profile? v).getD (.empty v) = _
      rw [profile?_update, if_neg hedit, Change.editsOf]
      by_cases h : w = v
      · subst h
        rw [if_pos rfl, if_pos rfl]
        rfl
      · rw [if_neg (Ne.symm h), if_neg h]
        rfl

/-- A route that comes from a bare one by `changes`. -/
structure Tracks (url name : String) (changes : List Change) (r : Route) : Prop where
  url : r.url = url
  name : r.name = name
  /-- The verbs stand in the order of the first change of each. -/
  verbs : r.verbs = (changes.map Change.verb).eraseDups
  /-- A profile depends on the edits since its verb was attached. -/
  profiles : ∀ v, (r.profile? v).getD (.empty v)
    = (editsSince v changes).foldl Profile.Edit.apply (.empty v)

variable {url name : String} {changes : List Change} {r : Route}

/-- One more change keeps the route on track: the verbs by `verbs_apply`,
and the profiles because `profile?_apply` and `editsSince` start anew at
the same changes. -/
theorem Tracks.apply (h : Tracks url name changes r) (change : Change) :
    Tracks url name (changes ++ [change]) (change.apply r) where
  url := by
    cases change <;> exact h.url
  name := by
    cases change <;> exact h.name
  verbs := by
    rw [verbs_apply, h.verbs, List.map_append, List.map_singleton,
      Keyed.eraseDups_append_singleton]
    simp only [List.mem_eraseDups]
  profiles := by
    intro v
    rw [profile?_apply, editsSince_append_singleton]
    split
    · rfl
    · rw [h.profiles, List.foldl_append]

/-- A bare route is on track, and so by induction from the end is a route
after any changes. -/
theorem tracks_changeAll (url name : String) (changes : List Change) :
    Tracks url name changes ((bare url name).changeAll changes) := by
  induction changes using List.reverseRecOn with
  | nil => exact ⟨rfl, rfl, rfl, fun _ => rfl⟩
  | append_singleton changes change ih =>
      rw [changeAll, List.foldl_append]
      exact ih.apply change

/-- An attached verb has the profile that the edits since then make of an
empty one, and that profile names the verb. -/
theorem Tracks.holds (h : Tracks url name changes r) {v : Verb} {p : Profile}
    (hp : r.profile? v = some p) : p.verb = v ∧ p.Holds (editsSince v changes) := by
  have heq : p = (editsSince v changes).foldl Profile.Edit.apply (.empty v) := by
    rw [← h.profiles v, hp]
    rfl
  rw [heq]
  exact ⟨Profile.verb_foldl_apply _ _, Profile.holds_foldl_apply v _⟩

/-- The first profile of a route is that of the verb of the first change: no
later change comes to stand before it. -/
theorem Tracks.first?_eq (h : Tracks url name changes r) :
    r.first? = changes.head?.bind fun change => r.profile? change.verb := by
  have hkeys : r.profiles.entries.map Prod.fst = (changes.map Change.verb).eraseDups := h.verbs
  cases changes with
  | nil =>
      have hnil : r.profiles.entries = [] := List.map_eq_nil_iff.1 hkeys
      show r.profiles.entries.head?.map Prod.snd = none
      rw [hnil]
      rfl
  | cons change changes =>
      rw [List.map_cons, List.eraseDups_cons] at hkeys
      obtain ⟨pair, rest, hentries, hpair, -⟩ := List.map_eq_cons_iff.1 hkeys
      have hmem : (change.verb, pair.2) ∈ r.profiles.entries := by
        rw [hentries, ← hpair]
        exact List.mem_cons_self
      have hprofile : r.profile? change.verb = some pair.2 := OrderedMap.mem_entries_iff.1 hmem
      show r.profiles.entries.head?.map Prod.snd = r.profile? change.verb
      rw [hentries, hprofile]
      rfl

/-- The first profile of a route names the verb of the first change, which
every route has a profile for. -/
theorem Tracks.verb_first? (h : Tracks url name changes r) :
    r.first?.map Profile.verb = changes.head?.map Change.verb := by
  rw [h.first?_eq]
  cases changes with
  | nil => rfl
  | cons change changes =>
      have hmem : change.verb ∈ r.verbs := by
        rw [h.verbs, List.mem_eraseDups]
        exact List.mem_cons_self
      obtain ⟨p, hp⟩ := mem_verbs_iff.1 hmem
      show (r.profile? change.verb).map Profile.verb = some change.verb
      rw [hp, Option.map_some, (h.holds hp).1]

/-- A route after any list of changes. Its URL and its name are as they
were. There is one profile per verb, in the order in which the verbs first
came, so the first one is that of the first change. A profile stands under
the verb that it names, and holds the edits of that verb since it was last
attached. In it, names and keys are found as they are listed. One more
parameter leaves the default values alone, and one more default value the
parameters. -/
theorem insertionOrder_of_changeAll (url name : String) (changes : List Change) :
    let r := (bare url name).changeAll changes
    r.url = url ∧ r.name = name ∧
    -- The verbs, and the first of them.
    r.verbs = (changes.map Change.verb).eraseDups ∧ r.verbs.Nodup ∧
    r.first? = changes.head?.bind (fun change => r.profile? change.verb) ∧
    r.first?.map Profile.verb = changes.head?.map Change.verb ∧
    -- The profile of each verb.
    ∀ v p, (v, p) ∈ r.profiles.entries →
      p.verb = v ∧ r.profile? v = some p ∧ p.Holds (editsSince v changes) ∧
      -- What is found in it.
      (∀ name param, p.parameter? name = some param ↔
        param ∈ p.parameters ∧ param.name = name) ∧
      (∀ name, p.hasParameter name = true ↔ ∃ param ∈ p.parameters, param.name = name) ∧
      (∀ key value, p.default? key = some value ↔ (key, value) ∈ p.defaults.entries) ∧
      -- What one more edit leaves alone.
      (∀ param, (((Change.edit v [.addParameter param]).apply r).profile? v).map
        Profile.defaults = some p.defaults) ∧
      (∀ key value, (((Change.edit v [.addDefault key value]).apply r).profile? v).map
        Profile.parameters = some p.parameters) := by
  intro r
  have h : Tracks url name changes r := tracks_changeAll url name changes
  refine ⟨h.url, h.name, h.verbs, r.profiles.nodup_keys, h.first?_eq, h.verb_first?,
    fun v p hmem => ?_⟩
  have hprofile : r.profile? v = some p := OrderedMap.mem_entries_iff.1 hmem
  obtain ⟨hverb, hholds⟩ := h.holds hprofile
  have hedit : ∀ edit : Profile.Edit,
      ((Change.edit v [edit]).apply r).profile? v = some (edit.apply p) := by
    intro edit
    show (r.update v _).profile? v = _
    rw [profile?_update, if_pos rfl, hprofile]
    rfl
  refine ⟨hverb, hprofile, hholds, fun name param => Keyed.find?_eq_some_iff hholds.nodup_names,
    fun name => ?_, fun key value => OrderedMap.mem_entries_iff.symm, fun param => ?_,
    fun key value => ?_⟩
  · rw [Profile.hasParameter, Profile.parameter?, Keyed.find?, List.find?_isSome]
    simp only [decide_eq_true_eq]
  · rw [hedit]
    rfl
  · rw [hedit]
    rfl

/-- A form parameter with a default literal. -/
def formParameter (name default : String) : Parameter :=
  { name, location := .form, required := false, type := textType, default }

/-- Changes of three verbs between each other. Names and keys come again in
one profile, and a verb is attached again after an edit. -/
def interleavedChanges : List Change := [
  .edit .post [.addParameter (formParameter "page" "1"), .addDefault "page" "1"],
  .attach .get,
  .edit .get [.addDefault "lost" "1", .setProduces "text/html"],
  .edit .post [.addParameter (formParameter "size" ""), .addDefault "sort" "name",
    .setProduces "text/csv", .addParameter (.ofPlaceholder "page" integerType)],
  .attach .get,
  .edit .put [],
  .edit .post [.addDefault "page" "2"],
  .edit .get [.addDefault "kept" "1"]]

/-- The profile of the verb that comes first in the interleaved changes. -/
def interleavedProfile : Profile where
  verb := .post
  produces := "text/csv"
  parameters := [.ofPlaceholder "page" integerType, formParameter "size" ""]
  defaults := ⟨[("page", "2"), ("sort", "name")], by decide⟩

/-- The edits of POST run together over the changes of the other verbs,
and those of GET start anew where it is attached again. -/
theorem insertionOrder_of_interleavedChanges :
    (.post, interleavedProfile)
        ∈ ((bare "/items" "items").changeAll interleavedChanges).profiles.entries ∧
      interleavedProfile.verb = .post ∧
      interleavedProfile.Holds (editsSince .post interleavedChanges) ∧
      editsSince .get interleavedChanges = [.addDefault "kept" "1"] := by
  have hmem : (Verb.post, interleavedProfile)
      ∈ ((bare "/items" "items").changeAll interleavedChanges).profiles.entries := by decide
  obtain ⟨-, -, -, -, -, -, hprofiles⟩ :=
    insertionOrder_of_changeAll "/items" "items" interleavedChanges
  obtain ⟨hverb, -, hholds, -⟩ := hprofiles .post interleavedProfile hmem
  exact ⟨hmem, hverb, hholds, by decide⟩

end Route

end RouteDoc
