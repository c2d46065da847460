import RouteDoc.Docblock.Extract
import RouteDoc.Proofs.Keyed

/-!
# `RouteDoc.Proofs.Docblock.Profile`: the profile of a marker

The profile of a marker is built by recording default values and by
declaring parameters, one at a time. A default value that comes again
overwrites the earlier one, but no parameter is declared twice, since the
keys of the requirements are distinct. So the profile can be written
down: first the required parameters, in the order of the requirements,
then the optional ones, in the order of the default values.

* `profileOf_eq`: the profile in one piece.
* `profile?_eq`: it depends on the two metadata blocks alone.
-/

set_option autoImplicit false

namespace RouteDoc.Docblock

/-- Default values are recorded one after the other, and nothing else
changes. -/
theorem foldl_addDefault (verb : Verb) (pairs : List (String × String)) :
    pairs.foldl (fun p (name, value) => p.addDefault name value) (Profile.empty verb)
      = { Profile.empty verb with defaults := OrderedMap.ofList pairs } := by
  have hrun : ∀ (pairs : List (String × String)) (p : Profile),
      pairs.foldl (fun p (name, value) => p.addDefault name value) p
        = { p with defaults := pairs.foldl (fun m (k, a) => m.insert k a) p.defaults } := by
    intro pairs
    induction pairs with
    | nil => exact fun p => rfl
    | cons pair pairs ih => exact fun p => ih _
  exact hrun pairs (Profile.empty verb)

/-- Parameters with distinct names are declared in their order, behind
those that are there. They may depend on the default values, which stay
as they are. -/
theorem foldl_addParameter {α : Type} (param : OrderedMap String String → α → Parameter)
    (as : List α) {p : Profile}
    (h : ((p.parameters ++ as.map (param p.defaults)).map Parameter.name).Nodup) :
    as.foldl (fun p a => p.addParameter (param p.defaults a)) p
      = { p with parameters := p.parameters ++ as.map (param p.defaults) } := by
  induction as generalizing p with
  | nil => simp
  | cons a as ih =>
      have hnew : (param p.defaults a).name ∉ p.parameters.map Parameter.name := by
        rw [List.map_append, List.nodup_append] at h
        exact fun hmem => h.2.2 _ hmem _ (by simp) rfl
      have hadd : p.addParameter (param p.defaults a)
          = { p with parameters := p.parameters ++ [param p.defaults a] } := by
        rw [Profile.addParameter, Keyed.put_eq_append hnew]
      rw [List.foldl_cons, hadd, ih (by simpa using h)]
      simp

/-- The parameters that a marker declares: one for every requirement, and
one for every other default value. All of them are texts in the path. -/
def parametersOf (defaults : OrderedMap String String) (required : List String) :
    List Parameter :=
  (required.map fun name =>
      { name, location := .path, required := true, type := "string",
        default := (defaults.get? name).getD "" })
    ++ (defaults.entries.filter fun (name, _) => !required.contains name).map
      fun (name, default) =>
        { name, location := .path, required := false, type := "string", default }

/-- No parameter is declared twice: the requirements have distinct names,
and so have the default values, of which those with a requirement are left
out. -/
theorem nodup_names_parametersOf (defaults : OrderedMap String String) {required : List String}
    (h : required.Nodup) : ((parametersOf defaults required).map Parameter.name).Nodup := by
  have hnames : (parametersOf defaults required).map Parameter.name
      = required ++ (defaults.entries.filter fun (name, _) => !required.contains name).map
          Prod.fst := by
    simp [parametersOf, Function.comp_def]
  rw [hnames, List.nodup_append]
  refine ⟨h, (List.filter_sublist.map Prod.fst).nodup defaults.distinct, ?_⟩
  rintro name hname _ hother rfl
  obtain ⟨pair, hpair, rfl⟩ := List.mem_map.1 hother
  have hnot := (List.mem_filter.1 hpair).2
  simp only [Bool.not_eq_true', List.contains_eq_mem, decide_eq_false_iff_not] at hnot
  exact hnot hname

/-- The profile of a marker, in one piece. A default value that is given
more than once counts as it does in a map. -/
theorem profileOf_eq (pairs : List (String × String)) {required : List String}
    (h : required.Nodup) :
    profileOf pairs required
      = { verb := .get
          produces := "application/xml"
          parameters := parametersOf (OrderedMap.ofList pairs) required
          defaults := OrderedMap.ofList pairs } := by
  rw [profileOf, foldl_addDefault]
  generalize OrderedMap.ofList pairs = defaults
  have hnodup := nodup_names_parametersOf defaults h
  have hrequired : (((Profile.empty .get).parameters ++ required.map fun name =>
      pathParameter true name ((defaults.get? name).getD "")).map Parameter.name).Nodup := by
    simpa [Profile.empty, pathParameter, Function.comp_def] using h
  have hfirst := foldl_addParameter
    (fun defaults name => pathParameter true name ((defaults.get? name).getD "")) required
    (p := { Profile.empty .get with defaults }) hrequired
  have hsecond := foldl_addParameter
    (fun _ (pair : String × String) => pathParameter false pair.1 pair.2)
    (defaults.entries.filter fun (name, _) => !required.contains name)
    (p := { Profile.empty .get with
      parameters := (Profile.empty .get).parameters ++ required.map fun name =>
        pathParameter true name ((defaults.get? name).getD "")
      defaults }) hnodup
  simp only [Profile.default?]
  rw [hfirst]
  exact hsecond

/-- The profile of a marker comes from its two blocks, and a block that is
not there counts as an empty one. -/
theorem profile?_eq (a : Arguments) :
    profile? a
      = ((a.attributes.get? "defaults").elim (pure []) defaultPairs >>= fun defaults =>
          (a.attributes.get? "requirements").elim (pure []) requirementKeys >>= fun required =>
            pure (profileOf defaults required)) := by
  unfold profile?
  cases a.attributes.get? "defaults" <;> cases a.attributes.get? "requirements" <;> rfl

end RouteDoc.Docblock
