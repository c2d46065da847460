import RouteDoc.Proofs.Dump.Profile
import RouteDoc.Proofs.Route

/-!
# `RouteDoc.Proofs.Dump.Reapply`: an entry that is applied twice

An entry first declares its default values and requirements, which
overwrite what is there and each other, and then the placeholders that
are still missing. Applied a second time it goes through the same steps:
a requirement that has overwritten a default value is overwritten by it
and overwrites it back. In the end nothing has changed, because every
name is there already and keeps its place, and the last declaration of a
name is the same as before.

* `applyToProfile_idem`: for the profile of one verb.
* `apply_idem`: for a route.
-/

set_option autoImplicit false

namespace RouteDoc

namespace Dump

variable {e : Entry} {p : Profile} {name : String}

/-! ### The two halves -/

/-- The parameters of the default values and requirements, in order. -/
def Entry.declared (e : Entry) : List Parameter :=
  (e.defaults.map fun pair => defaultParameter pair.1 pair.2)
    ++ e.requirements.map fun pair => requiredParameter e.url pair.1 pair.2

/-- The profile with the default values and requirements declared. -/
def Entry.declare (e : Entry) (p : Profile) : Profile :=
  e.requirements.foldl
    (fun p (name, requirement) => p.addParameter (requiredParameter e.url name requirement))
    (e.defaults.foldl addDefaultParameter p)

/-- Applying an entry in two parts: the parameters it declares, and then the
placeholders that they leave over. -/
theorem applyToProfile_eq (e : Entry) (p : Profile) :
    e.applyToProfile p = (Placeholder.names e.url).foldl addPlaceholder (e.declare p) := rfl

/-- What the first pass does to each field of a profile: the parameters and
the recorded values change, and nothing else. -/
theorem foldl_addDefaultParameter (defaults : List (String × String)) (p : Profile) :
    (defaults.foldl addDefaultParameter p).verb = p.verb ∧
    (defaults.foldl addDefaultParameter p).produces = p.produces ∧
    (defaults.foldl addDefaultParameter p).parameters
      = (defaults.map fun pair => defaultParameter pair.1 pair.2).foldl
          (fun ps param => Keyed.put Parameter.name param ps) p.parameters ∧
    (defaults.foldl addDefaultParameter p).defaults.entries
      = defaults.foldl (fun pairs pair => Keyed.put Prod.fst pair pairs) p.defaults.entries := by
  induction defaults generalizing p with
  | nil => exact ⟨rfl, rfl, rfl, rfl⟩
  | cons pair defaults ih => exact ih (addDefaultParameter p pair)

/-- What the second pass does to each field of a profile: the parameters
change, and nothing else. -/
theorem foldl_addRequirement (url : String) (requirements : List (String × String))
    (p : Profile) :
    requirements.foldl
        (fun p (name, requirement) => p.addParameter (requiredParameter url name requirement)) p
      = { p with
          parameters := (requirements.map fun pair => requiredParameter url pair.1 pair.2).foldl
            (fun ps param => Keyed.put Parameter.name param ps) p.parameters } := by
  induction requirements generalizing p with
  | nil => rfl
  | cons pair requirements ih =>
      exact ih (p.addParameter (requiredParameter url pair.1 pair.2))

/-- The declarations of an entry keep the verb. -/
theorem verb_declare (e : Entry) (p : Profile) : (e.declare p).verb = p.verb := by
  rw [Entry.declare, foldl_addRequirement]
  exact (foldl_addDefaultParameter e.defaults p).1

/-- The declarations of an entry keep the media types. -/
theorem produces_declare (e : Entry) (p : Profile) : (e.declare p).produces = p.produces := by
  rw [Entry.declare, foldl_addRequirement]
  exact (foldl_addDefaultParameter e.defaults p).2.1

/-- The parameters after the declarations: the declared ones are put in, in
order, each in the place of the one of its name if there is one. -/
theorem parameters_declare (e : Entry) (p : Profile) :
    (e.declare p).parameters
      = e.declared.foldl (fun ps param => Keyed.put Parameter.name param ps) p.parameters := by
  rw [Entry.declare, foldl_addRequirement, Entry.declared, List.foldl_append,
    (foldl_addDefaultParameter e.defaults p).2.2.1]

/-- The default values are recorded in the same way, under their names. -/
theorem entries_declare (e : Entry) (p : Profile) :
    (e.declare p).defaults.entries
      = e.defaults.foldl (fun pairs pair => Keyed.put Prod.fst pair pairs) p.defaults.entries := by
  rw [Entry.declare, foldl_addRequirement]
  exact (foldl_addDefaultParameter e.defaults p).2.2.2

end Dump

/-- A profile is its verb, its content type, its parameters and its default
values. -/
theorem Profile.ext_fields {p q : Profile} (hverb : p.verb = q.verb)
    (hproduces : p.produces = q.produces) (hparameters : p.parameters = q.parameters)
    (hdefaults : p.defaults.entries = q.defaults.entries) : p = q := by
  have hmap : p.defaults = q.defaults := OrderedMap.ext_entries hdefaults
  cases p
  cases q
  simp_all

namespace Dump

variable {e : Entry} {p : Profile} {name : String}

/-- Declaring twice is declaring once: putting the same list in again changes
nothing, since the last parameter of each name is already in its place. -/
theorem declare_idem (e : Entry) (p : Profile) : e.declare (e.declare p) = e.declare p := by
  refine Profile.ext_fields (verb_declare e _) (produces_declare e _) ?_ ?_
  · rw [parameters_declare, parameters_declare]
    exact Keyed.foldl_put_idem _ _
  · rw [entries_declare, entries_declare]
    exact Keyed.foldl_put_idem _ _

/-! ### Placeholders -/

/-- A placeholder that is declared behind what an entry has declared is
out of its way. -/
theorem declare_addPlaceholder (h : e.declare p = p) (name : String) :
    e.declare (addPlaceholder p name) = addPlaceholder p name := by
  unfold addPlaceholder
  split
  · exact h
  · next hundeclared =>
    have hnew : name ∉ p.parameters.map Parameter.name := by
      simpa [Profile.hasParameter, Profile.parameter?, Keyed.find?_eq_none_iff] using hundeclared
    have hkept : e.declared.foldl (fun ps param => Keyed.put Parameter.name param ps)
        p.parameters = p.parameters := by
      rw [← parameters_declare, h]
    have hknown : ∀ param ∈ e.declared, param.name ∈ p.parameters.map Parameter.name := by
      intro param hparam
      rw [← hkept, Keyed.mem_keys_foldl_put]
      exact Or.inr (List.mem_map_of_mem hparam)
    -- The new parameter stands at the end, and all others are overwritten where they are.
    have hend : (p.addParameter (Parameter.ofPlaceholder name (typeOfPlaceholder name))).parameters
        = p.parameters ++ [Parameter.ofPlaceholder name (typeOfPlaceholder name)] :=
      Keyed.put_eq_append hnew
    refine Profile.ext_fields (verb_declare e _) (produces_declare e _) ?_ ?_
    · rw [parameters_declare, hend, Keyed.foldl_put_append hknown, hkept]
    · rw [entries_declare]
      show _ = p.defaults.entries
      conv_rhs => rw [← h, entries_declare]
      rfl

/-- Placeholders do not undo declarations. They add names that are not
declared, so declaring again finds everything as it left it. -/
theorem declare_addPlaceholders (h : e.declare p = p) (placeholders : List String) :
    e.declare (placeholders.foldl addPlaceholder p) = placeholders.foldl addPlaceholder p :=
  List.foldlRecOn (motive := fun q => e.declare q = q) placeholders addPlaceholder h
    fun _ hq name _ => declare_addPlaceholder hq name

/-- Placeholders whose names are all declared change nothing. -/
theorem addPlaceholders_of_declared {placeholders : List String}
    (h : ∀ name ∈ placeholders, p.hasParameter name = true) :
    placeholders.foldl addPlaceholder p = p := by
  induction placeholders with
  | nil => rfl
  | cons name placeholders ih =>
      have hfirst : addPlaceholder p name = p := if_pos (h name (by simp))
      rw [List.foldl_cons, hfirst]
      exact ih fun other hother => h other (by simp [hother])

/-! ### Profiles and routes -/

/-- An entry changes nothing in a profile to which it has been applied. The
declarations are in place already, and every placeholder has a parameter. -/
theorem applyToProfile_idem (e : Entry) (p : Profile) :
    e.applyToProfile (e.applyToProfile p) = e.applyToProfile p := by
  have hdeclared : e.declare (e.applyToProfile p) = e.applyToProfile p :=
    declare_addPlaceholders (declare_idem e p) _
  rw [applyToProfile_eq e (e.applyToProfile p), hdeclared]
  refine addPlaceholders_of_declared fun name hname => ?_
  rw [Profile.hasParameter, applyToProfile_eq, parameter?_addPlaceholders, if_pos hname]
  cases (e.declare p).parameter? name <;> rfl

/-- The profile of every verb that is updated is one that `f` has made. Verbs
may come twice in the list, which is why `f` has to be idempotent. -/
theorem profile?_foldl_update {f : Profile → Profile} (hf : ∀ p, f (f p) = f p)
    (vs : List Verb) (r : Route) {v : Verb}
    (h : v ∈ vs ∨ ∃ p, r.profile? v = some p ∧ f p = p) :
    ∃ p, (vs.foldl (fun r v => r.update v f) r).profile? v = some p ∧ f p = p := by
  induction vs generalizing r with
  | nil => exact h.resolve_left (by simp)
  | cons w vs ih =>
      refine ih (r.update w f) ?_
      have hupdate := r.profile?_update w v f
      by_cases hv : v = w
      · -- `f` has just been applied to the profile of `v`.
        exact Or.inr ⟨_, by rw [hupdate, if_pos hv], hf _⟩
      · rw [List.mem_cons] at h
        rcases h with (h | h) | h
        · exact absurd h hv
        · exact Or.inl h
        · rw [hupdate, if_neg hv]
          exact Or.inr h

/-- Updates that would leave all their profiles as they are leave the route as
it is. -/
theorem foldl_update_of_fixed {f : Profile → Profile} {vs : List Verb} {r : Route}
    (h : ∀ v ∈ vs, ∃ p, r.profile? v = some p ∧ f p = p) :
    vs.foldl (fun r v => r.update v f) r = r := by
  induction vs with
  | nil => rfl
  | cons v vs ih =>
      obtain ⟨p, hp, hfixed⟩ := h v (by simp)
      have hfirst : r.update v f = r := by
        have hget : r.profiles.get? v = some p := hp
        have hput : r.profiles.update v (Profile.empty v) f = r.profiles := by
          refine OrderedMap.ext_entries ?_
          rw [OrderedMap.update, hget, Option.getD_some, hfixed]
          exact Keyed.put_of_find? ((Keyed.find?_eq_some_iff r.profiles.distinct).2
            ⟨OrderedMap.mem_entries_iff.2 hget, rfl⟩)
        rw [Route.update, hput]
      rw [List.foldl_cons, hfirst]
      exact ih fun w hw => h w (by simp [hw])

/-- An entry changes nothing in a route to which it has been applied. -/
theorem apply_idem (e : Entry) (r : Route) : e.apply (e.apply r) = e.apply r :=
  foldl_update_of_fixed fun _ hv =>
    profile?_foldl_update (applyToProfile_idem e) e.verbs r (Or.inl hv)

end Dump

end RouteDoc
