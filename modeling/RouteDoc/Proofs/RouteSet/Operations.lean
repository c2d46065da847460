import RouteDoc.Proofs.Dump.Import

/-!
# `RouteDoc.Proofs.RouteSet.Operations`: runs over a route set

A route set is built by three operations, in any order and any number:
a route goes in by URL, the first route of a name gets other profiles,
or a dump is imported. `run` is the set after a list of operations on
the empty set.

* `indexed_run`: the indexes are right at every point of a run.
* `indexes_and_growth_of_run`: what that means, and what the next
  operation does to the list of routes: it only ever appends.
-/

set_option autoImplicit false

namespace RouteDoc.RouteSet

open Route

/-- An operation on a route set. -/
inductive Operation where
  /-- A route goes in by its URL. -/
  | insert (r : Route)
  /-- The first route of a name, appended with the URL if there is none,
  gets the profiles that `profiles` makes of it. -/
  | change (url name : String) (profiles : Route → OrderedMap Verb Profile)
  /-- The entries of a dump go in by their names. -/
  | importDump (entries : List (String × Json))

/-- The set after one operation. -/
def Operation.apply (s : RouteSet) : Operation → RouteSet
  | insert r => (s.insertByUrl r).1
  | change url name profiles => s.updateByName url name fun r => { r with profiles := profiles r }
  | importDump entries => (Dump.importEntries s entries).value

/-- The set after a list of operations on the empty set. -/
def run (ops : List Operation) : RouteSet := ops.foldl Operation.apply ∅

variable {s : RouteSet}

/-- Replacing the profiles of a route keeps its URL and its name. -/
theorem keepsIdentity_profiles (profiles : Route → OrderedMap Verb Profile) :
    KeepsIdentity fun r => { r with profiles := profiles r } :=
  ⟨fun _ => rfl, fun _ => rfl⟩

/-- Each kind of operation keeps both indexes right. -/
theorem indexed_apply (h : Indexed s) (op : Operation) : Indexed (op.apply s) := by
  cases op with
  | insert r => exact indexed_insertByUrl h r
  | change url name profiles => exact indexed_updateByName h (keepsIdentity_profiles profiles)
  | importDump entries => exact Dump.indexed_importEntries h entries

/-- The indexes are right at every point of a run: an operation keeps them so,
and the runs are the lists of operations. -/
theorem indexed_run (ops : List Operation) : Indexed (run ops) := by
  have hfold : ∀ (ops : List Operation) (s : RouteSet), Indexed s →
      Indexed (ops.foldl Operation.apply s) := by
    intro ops
    induction ops with
    | nil => intro s h; exact h
    | cons op ops ih => intro s h; exact ih _ (indexed_apply h op)
  exact hfold ops ∅ indexed_empty

/-- No operation drops a route, moves one, or changes its URL or its
name. -/
theorem prefix_apply (h : Indexed s) (op : Operation) :
    s.routes.map identity <+: (op.apply s).routes.map identity := by
  cases op with
  | insert r =>
      show _ <+: (s.insertByUrl r).1.routes.map identity
      rw [routes_insertByUrl h, insertNew]
      split
      · exact List.prefix_refl _
      · simp
  | change url name profiles =>
      show _ <+: (s.updateByName url name _).routes.map identity
      rw [h.routes_updateByName, identities_upsert (keepsIdentity_profiles profiles)]
      split
      · exact List.prefix_refl _
      · exact List.prefix_append _ _
  | importDump entries =>
      show _ <+: (Dump.importEntries s entries).value.routes.map identity
      rw [Dump.routes_importEntries h.toNamed]
      exact Dump.prefix_absorb _ _

/-- A known name with nothing to change leaves the whole set as it
is. -/
theorem updateByName_id (h : Indexed s) {url name : String}
    (hname : name ∈ s.routes.map Route.name) : s.updateByName url name id = s := by
  cases hi : s.positions.get? name with
  | none => exact absurd hname (h.get?_eq_none_iff.1 hi)
  | some i => simp [updateByName, hi]

/-- The route of a name after it has been changed, read off the list of
routes. -/
theorem find?_updateByName (h : Indexed s) (url name : String) {f : Route → Route}
    (hf : KeepsIdentity f) :
    (s.updateByName url name f).find? name
      = some (f ((s.find? name).getD (bare url name))) := by
  rw [(indexed_updateByName h hf).find?_eq, h.routes_updateByName, h.find?_eq,
    find?_upsert hf, if_pos rfl]

/-- At every point of a run, both indexes describe the list of routes:
the URLs are those of the routes, the names with a position are those
of the routes, and the position is the least one with a route of that
name, which is the route that is found.

Whatever comes next, the URLs and names of the routes so far stay where
they are. An insertion by URL appends its route if the URL is new and
else leaves the set alone; asking for a name that is new appends a route
without verbs, whatever its URL, and else leaves the set alone. -/
theorem indexes_and_growth_of_run (ops : List Operation) :
    -- The index of URLs.
    (∀ url, url ∈ (run ops).urls ↔ ∃ r ∈ (run ops).routes, r.url = url) ∧
    -- The index of names, and what is found through it.
    (∀ name, name ∈ (run ops).positions.keys ↔ ∃ r ∈ (run ops).routes, r.name = name) ∧
    (∀ name i, (run ops).positions.get? name = some i ↔
      (∃ r, (run ops).routes[i]? = some r ∧ r.name = name) ∧
        ∀ j < i, ∀ r, (run ops).routes[j]? = some r → r.name ≠ name) ∧
    (∀ name, (run ops).find? name = (run ops).routes.find? fun r => r.name = name) ∧
    (∀ name, (run ops).find? name = none ↔ ∀ r ∈ (run ops).routes, r.name ≠ name) ∧
    -- Growth by any operation.
    (∀ op : Operation,
      (run ops).routes.map identity <+: (op.apply (run ops)).routes.map identity) ∧
    -- Insertion by URL.
    (∀ r, if ∃ t ∈ (run ops).routes, t.url = r.url then
        (run ops).insertByUrl r = (run ops, false)
      else ((run ops).insertByUrl r).2 = true ∧
        ((run ops).insertByUrl r).1.routes = (run ops).routes ++ [r]) ∧
    -- Asking for a name, and changing the route that it names.
    (∀ url name, if ∃ t ∈ (run ops).routes, t.name = name then
        (run ops).updateByName url name id = run ops
      else ((run ops).updateByName url name id).routes
        = (run ops).routes ++ [bare url name] ∧ (bare url name).verbs = []) ∧
    (∀ url name profiles,
      ((Operation.change url name profiles).apply (run ops)).find? name
        = let r := ((run ops).find? name).getD (bare url name)
          some { r with profiles := profiles r }) := by
  have h : Indexed (run ops) := indexed_run ops
  refine ⟨fun url => by simpa using h.urls url, fun name => ?_,
    fun name i => h.get?_eq_some_iff, h.find?_eq, fun name => ?_, prefix_apply h,
    fun r => ?_, fun url name => ?_,
    fun url name profiles => find?_updateByName h url name (keepsIdentity_profiles profiles)⟩
  · simpa using h.mem_keys_iff name
  · rw [h.find?_eq]
    simp
  · have hurl : (∃ t ∈ (run ops).routes, t.url = r.url) ↔ r.url ∈ (run ops).urls := by
      simpa using (h.urls r.url).symm
    split
    · next hknown => exact insertByUrl_of_mem (hurl.1 hknown)
    · next hnew =>
      rw [insertByUrl_of_not_mem (mt hurl.2 hnew)]
      exact ⟨rfl, rfl⟩
  · have hname : (∃ t ∈ (run ops).routes, t.name = name) ↔
        name ∈ (run ops).routes.map Route.name := by simp
    split
    · next hknown => exact updateByName_id h (hname.1 hknown)
    · next hnew =>
      rw [h.routes_updateByName, upsert, if_neg (mt hname.2 hnew)]
      exact ⟨rfl, rfl⟩

end RouteDoc.RouteSet
