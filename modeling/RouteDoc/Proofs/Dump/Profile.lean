import RouteDoc.Proofs.Keyed
import RouteDoc.Proofs.Placeholder

/-!
# `RouteDoc.Proofs.Dump.Profile`: what an entry declares

An entry goes through its default values, its requirements and the
placeholders of its URL, in this order. A requirement overwrites what was
declared under its name; a placeholder does not. The parameter of a name
is therefore found in the last requirement of that name, else in the last
default value, else where it was before, and only else does a placeholder
declare it.

* `parameter?_applyToProfile`: the parameter of every name.
* `required_of_inPath`: a path parameter of a fresh profile is required
  and occurs in the URL.
* `declares_placeholder_iff`: a placeholder has a path parameter unless
  there is a default value, and no requirement, of its name.
-/

set_option autoImplicit false

namespace RouteDoc

/-! ### Profiles as maps -/

namespace Profile

variable {p : Profile} {param : Parameter} {name : String}

/-- Declaring a parameter replaces the one of its name only. -/
theorem parameter?_addParameter :
    (p.addParameter param).parameter? name
      = if name = param.name then some param else p.parameter? name := by
  unfold addParameter parameter?
  split
  · next h =>
    subst h
    exact Keyed.find?_put_self
  · next h => exact Keyed.find?_put_of_ne h

/-- Of many declarations, the last one of a name is found, and what was
declared before them only if none of them has the name. The passes over
default values and over requirements are both of this kind, each with a
`param` of its own. -/
theorem parameter?_foldl {α : Type} {f : Profile → α → Profile} (param : α → Parameter)
    (hf : ∀ p a, (f p a).parameters = (p.addParameter (param a)).parameters) (as : List α)
    (p : Profile) (name : String) :
    (as.foldl f p).parameter? name
      = ((as.reverse.find? fun a => (param a).name = name).map param).or (p.parameter? name) := by
  have hfold : ∀ p : Profile, (as.foldl f p).parameters
      = (as.map param).foldl (fun xs a => Keyed.put Parameter.name a xs) p.parameters := by
    induction as with
    | nil => exact fun p => rfl
    | cons a as ih =>
        intro p
        rw [List.foldl_cons, ih, hf]
        rfl
  rw [parameter?, hfold, Keyed.find?_foldl_put, ← List.map_reverse, Keyed.find?, List.find?_map]
  rfl

/-- The profile under another verb. -/
def withVerb (p : Profile) (verb : Verb) : Profile := { p with verb }

/-- The parameters have distinct names. -/
def Distinct (p : Profile) : Prop := (p.parameters.map Parameter.name).Nodup

/-- Declaring a parameter keeps the names distinct: it takes the place of the
one of its name. -/
theorem Distinct.addParameter (h : p.Distinct) (param : Parameter) :
    (p.addParameter param).Distinct :=
  Keyed.nodup_keys_put h

/-- When names are distinct, the parameters are those that are found under
their own names. -/
theorem Distinct.mem_parameters_iff (h : p.Distinct) :
    param ∈ p.parameters ↔ p.parameter? param.name = some param := by
  rw [parameter?, Keyed.find?_eq_some_iff h]
  simp

end Profile

namespace Dump

variable {e : Entry} {p : Profile} {param : Parameter} {name : String} {verb : Verb}

/-! ### Placeholders -/

/-- A placeholder declares the parameter of its name if there is none, and
leaves alone what has been declared. -/
theorem parameter?_addPlaceholder (p : Profile) (first name : String) :
    (addPlaceholder p first).parameter? name
      = (p.parameter? name).or (if name = first
          then some (Parameter.ofPlaceholder name (typeOfPlaceholder name)) else none) := by
  unfold addPlaceholder
  split
  · next hdeclared =>
    -- The name is declared, so it is found where it was.
    by_cases hname : name = first
    · subst hname
      rw [Profile.hasParameter, Option.isSome_iff_exists] at hdeclared
      obtain ⟨param, hparam⟩ := hdeclared
      rw [hparam]
      rfl
    · simp [hname]
  · next hundeclared =>
    rw [Profile.parameter?_addParameter]
    by_cases hname : name = first
    · subst hname
      have hnone : p.parameter? name = none := by
        simpa [Profile.hasParameter] using hundeclared
      simp [hnone, Parameter.ofPlaceholder]
    · have hother : name ≠ (Parameter.ofPlaceholder first (typeOfPlaceholder first)).name := hname
      simp [hname, hother]

/-- Placeholders declare the parameters of their names that are not
there. -/
theorem parameter?_addPlaceholders (placeholders : List String) (p : Profile) (name : String) :
    (placeholders.foldl addPlaceholder p).parameter? name
      = (p.parameter? name).or (if name ∈ placeholders
          then some (Parameter.ofPlaceholder name (typeOfPlaceholder name)) else none) := by
  induction placeholders generalizing p with
  | nil => simp
  | cons first placeholders ih =>
      rw [List.foldl_cons, ih, parameter?_addPlaceholder, Option.or_assoc]
      congr 1
      by_cases hname : name = first
      · simp [hname]
      · simp [hname]

/-- Declaring placeholders keeps the names distinct. -/
theorem distinct_addPlaceholders (placeholders : List String) (h : p.Distinct) :
    (placeholders.foldl addPlaceholder p).Distinct := by
  refine List.foldlRecOn placeholders _ h fun p hp name _ => ?_
  unfold addPlaceholder
  split
  · exact hp
  · exact hp.addParameter _

/-! ### Entries -/

/-- The last pair of a list with the given key. -/
def lastWith (name : String) (pairs : List (String × String)) : Option (String × String) :=
  pairs.reverse.find? fun pair => pair.1 = name

/-- There is no last pair of a name exactly when no pair has it. -/
theorem lastWith_eq_none_iff {pairs : List (String × String)} :
    lastWith name pairs = none ↔ name ∉ pairs.map Prod.fst := by
  simp only [lastWith, List.find?_eq_none, List.mem_reverse, decide_eq_true_eq, List.mem_map,
    not_exists, not_and]

/-- The last pair of a name has the name, and stands in the list. -/
theorem mem_of_lastWith {pairs : List (String × String)} {pair : String × String}
    (h : lastWith name pairs = some pair) : pair.1 = name ∧ name ∈ pairs.map Prod.fst := by
  have hname : pair.1 = name := by simpa using List.find?_some h
  have hmem : pair ∈ pairs := List.mem_reverse.1 (List.mem_of_find?_eq_some h)
  exact ⟨hname, hname ▸ List.mem_map_of_mem hmem⟩

/-- Where an entry finds the parameter of a name: in its requirements,
else in its default values, else where it was, else in its URL. -/
theorem parameter?_applyToProfile (e : Entry) (p : Profile) (name : String) :
    (e.applyToProfile p).parameter? name
      = ((((lastWith name e.requirements).map fun pair => requiredParameter e.url pair.1 pair.2).or
          (((lastWith name e.defaults).map fun pair => defaultParameter pair.1 pair.2).or
            (p.parameter? name))).or
          (if name ∈ Placeholder.names e.url
            then some (Parameter.ofPlaceholder name (typeOfPlaceholder name)) else none)) := by
  have hdefaults := Profile.parameter?_foldl (f := addDefaultParameter)
    (fun pair => defaultParameter pair.1 pair.2) (fun _ _ => rfl) e.defaults p name
  have hrequirements := fun q : Profile => Profile.parameter?_foldl
    (f := fun p (pair : String × String) =>
      p.addParameter (requiredParameter e.url pair.1 pair.2))
    (fun pair => requiredParameter e.url pair.1 pair.2) (fun _ _ => rfl) e.requirements q name
  rw [Entry.applyToProfile, parameter?_addPlaceholders]
  congr 1
  exact (hrequirements _).trans (by rw [hdefaults]; rfl)

/-- What an entry declares does not depend on the verb, and the verb stays
as it is. -/
theorem applyToProfile_withVerb (e : Entry) (p : Profile) (verb : Verb) :
    e.applyToProfile (p.withVerb verb) = (e.applyToProfile p).withVerb verb := by
  have hplaceholder : ∀ (p : Profile) name,
      addPlaceholder (p.withVerb verb) name = (addPlaceholder p name).withVerb verb := by
    intro p name
    have hsame : (p.withVerb verb).hasParameter name = p.hasParameter name := rfl
    unfold addPlaceholder
    rw [hsame]
    split <;> rfl
  -- None of the three passes looks at the verb.
  have hdefaults : e.defaults.foldl addDefaultParameter (p.withVerb verb)
      = (e.defaults.foldl addDefaultParameter p).withVerb verb :=
    List.foldl_hom (Profile.withVerb · verb) fun _ _ => rfl
  have hrequirements : ∀ p : Profile, e.requirements.foldl (fun p pair =>
        p.addParameter (requiredParameter e.url pair.1 pair.2)) (p.withVerb verb)
      = (e.requirements.foldl (fun p pair =>
        p.addParameter (requiredParameter e.url pair.1 pair.2)) p).withVerb verb :=
    fun p => List.foldl_hom (Profile.withVerb · verb) fun _ _ => rfl
  show (Placeholder.names e.url).foldl addPlaceholder (e.requirements.foldl (fun p pair =>
      p.addParameter (requiredParameter e.url pair.1 pair.2))
        (e.defaults.foldl addDefaultParameter (p.withVerb verb))) = _
  rw [hdefaults, hrequirements]
  exact List.foldl_hom (Profile.withVerb · verb) hplaceholder

/-- Applying an entry keeps the names of the parameters distinct through all
three passes. -/
theorem distinct_applyToProfile (e : Entry) (h : p.Distinct) : (e.applyToProfile p).Distinct := by
  have hdefaults : (e.defaults.foldl addDefaultParameter p).Distinct :=
    List.foldlRecOn e.defaults _ h fun p hp pair _ => Profile.Distinct.addParameter hp _
  refine distinct_addPlaceholders _ ?_
  exact List.foldlRecOn e.requirements _ hdefaults fun p hp pair _ => hp.addParameter _

/-! ### Path parameters -/

/-- A requirement declares a parameter of the path exactly when the URL has
its placeholder. -/
theorem inPath_requiredParameter (url name requirement : String) :
    (requiredParameter url name requirement).inPath = inTemplate url name := by
  unfold requiredParameter Parameter.inPath
  cases inTemplate url name <;> rfl

/-- In a fresh profile every path parameter is required, and its name
occurs in the URL. -/
theorem required_of_inPath (hparam : param ∈ (e.applyToProfile (.empty verb)).parameters)
    (hpath : param.inPath = true) :
    param.required = true ∧ inTemplate e.url param.name = true := by
  have hdistinct : (e.applyToProfile (.empty verb)).Distinct :=
    distinct_applyToProfile e List.Pairwise.nil
  have hfind := hdistinct.mem_parameters_iff.1 hparam
  have hnone : (Profile.empty verb).parameter? param.name = none := rfl
  rw [parameter?_applyToProfile, hnone, Option.or_none] at hfind
  cases hrequirement : lastWith param.name e.requirements with
  | some pair =>
      rw [hrequirement] at hfind
      obtain rfl : requiredParameter e.url pair.1 pair.2 = param := Option.some.inj hfind
      rw [inPath_requiredParameter] at hpath
      exact ⟨rfl, hpath⟩
  | none =>
      rw [hrequirement, Option.map_none, Option.none_or] at hfind
      cases hdefault : lastWith param.name e.defaults with
      | some pair =>
          -- A default value is not carried in the path.
          rw [hdefault] at hfind
          obtain rfl : defaultParameter pair.1 pair.2 = param := Option.some.inj hfind
          exact absurd hpath (by simp [Parameter.inPath, defaultParameter])
      | none =>
          rw [hdefault, Option.map_none, Option.none_or, Option.ite_none_right_eq_some] at hfind
          obtain ⟨hname, hparameter⟩ := hfind
          refine ⟨?_, (Placeholder.mem_names_iff.1 hname).2⟩
          rw [← Option.some.inj hparameter]
          rfl

/-- In a fresh profile a placeholder has a path parameter, unless there is
a default value of its name and no requirement. -/
theorem declares_placeholder_iff (hname : name ∈ Placeholder.names e.url) :
    (∃ param ∈ (e.applyToProfile (.empty verb)).parameters,
        param.inPath = true ∧ param.name = name) ↔
      name ∈ e.requirements.map Prod.fst ∨ name ∉ e.defaults.map Prod.fst := by
  have hdistinct : (e.applyToProfile (.empty verb)).Distinct :=
    distinct_applyToProfile e List.Pairwise.nil
  have hdeclared : (∃ param ∈ (e.applyToProfile (.empty verb)).parameters,
      param.inPath = true ∧ param.name = name) ↔
        ∃ param, (e.applyToProfile (.empty verb)).parameter? name = some param ∧
          param.inPath = true := by
    constructor
    · rintro ⟨param, hmem, hpath, rfl⟩
      exact ⟨param, hdistinct.mem_parameters_iff.1 hmem, hpath⟩
    · rintro ⟨param, hfind, hpath⟩
      exact ⟨param, List.mem_of_find?_eq_some hfind, hpath, Keyed.key_of_find? hfind⟩
  have hnone : (Profile.empty verb).parameter? name = none := rfl
  rw [hdeclared, parameter?_applyToProfile, hnone, Option.or_none, if_pos hname]
  cases hrequirement : lastWith name e.requirements with
  | some pair =>
      obtain ⟨hpair, hmem⟩ := mem_of_lastWith hrequirement
      refine iff_of_true ⟨requiredParameter e.url pair.1 pair.2, rfl, ?_⟩ (Or.inl hmem)
      rw [inPath_requiredParameter, hpair]
      exact (Placeholder.mem_names_iff.1 hname).2
  | none =>
      have hnot := lastWith_eq_none_iff.1 hrequirement
      cases hdefault : lastWith name e.defaults with
      | some pair =>
          obtain ⟨-, hmem⟩ := mem_of_lastWith hdefault
          refine iff_of_false ?_ (by simp only [hnot, hmem, not_true, or_self, not_false_iff])
          rintro ⟨param, hfind, hpath⟩
          obtain rfl : defaultParameter pair.1 pair.2 = param := Option.some.inj hfind
          exact absurd hpath (by simp [Parameter.inPath, defaultParameter])
      | none =>
          refine iff_of_true ⟨_, rfl, ?_⟩ (Or.inr (lastWith_eq_none_iff.1 hdefault))
          rfl

end Dump

end RouteDoc
