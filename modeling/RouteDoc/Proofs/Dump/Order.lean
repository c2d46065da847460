import Mathlib.Data.List.Find
import RouteDoc.Proofs.Dump.Absorb
import RouteDoc.Proofs.Dump.Reimport

/-!
# `RouteDoc.Proofs.Dump.Order`: the order of the entries of a dump

Entries of distinct names do not meet. Each of them changes the route at
the position that its name had before the dump, and no other entry has
that position; or its name had none, and it appends a route that no later
entry finds. So the routes after a dump are a function of the *set* of
entries, but for the order of the routes that are appended.

This is so for every set that is reached, also when a route has been
renamed, or when several routes share a name or a URL: what counts is
where a name leads, not what the route there is called.

* `routes_foldl_update`: the list of routes after entries of distinct
  names, in closed form.
* `find?_foldl_update`: the route of every name afterwards.
* `importEntries_perm`: dumps with the same entries in another order.
-/

set_option autoImplicit false

namespace RouteDoc.Dump

open Route

variable {s : RouteSet} {e : Entry} {es es' : List Entry} {name : String} {i : Nat}

/-- The entry whose name leads to the position `i` of a set. -/
def reaching (s : RouteSet) (es : List Entry) (i : Nat) : Option Entry :=
  es.find? fun e => s.positions.get? e.name = some i

/-- The entries whose names lead nowhere in a set. -/
def newcomers (s : RouteSet) (es : List Entry) : List Entry :=
  es.filter fun e => s.positions.get? e.name = none

/-- The route at the position `i`, after the entry whose name leads
there. -/
def afterwards (s : RouteSet) (es : List Entry) (i : Nat) (r : Route) : Route :=
  (reaching s es i).elim r fun e => e.apply r

/-! ### One position -/

/-- A position that no entry comes to keeps its route. -/
theorem afterwards_of_none (h : reaching s es i = none) (r : Route) :
    afterwards s es i r = r := by
  rw [afterwards, h, Option.elim_none]

/-- The first entry that comes to a position is applied to the route there. -/
theorem afterwards_cons_of_eq (h : s.positions.get? e.name = some i) (r : Route) :
    afterwards s (e :: es) i r = e.apply r := by
  simp [afterwards, reaching, h]

/-- An entry that comes elsewhere leaves the position to the entries after it. -/
theorem afterwards_cons_of_ne (h : s.positions.get? e.name ≠ some i) (r : Route) :
    afterwards s (e :: es) i r = afterwards s es i r := by
  simp [afterwards, reaching, h]

/-! ### One entry before the others -/

/-- An entry does not move the names of the others: old names keep their
positions, and its own is all that it may add. -/
theorem get?_positions_update_of_ne {e' : Entry} (h : e'.name ≠ e.name) :
    (e.update s).positions.get? e'.name = s.positions.get? e'.name :=
  RouteSet.get?_positions_updateByName_of_ne h s e.url e.apply

/-- Which entry comes to a position does not change when an entry of another
name is imported first. -/
theorem reaching_update (h : ∀ e' ∈ es, e'.name ≠ e.name) (i : Nat) :
    reaching (e.update s) es i = reaching s es i :=
  List.find?_congr fun e' he' => by rw [get?_positions_update_of_ne (h e' he')]

/-- Which entries are new does not change either. -/
theorem newcomers_update (h : ∀ e' ∈ es, e'.name ≠ e.name) :
    newcomers (e.update s) es = newcomers s es :=
  List.filter_congr fun e' he' => by rw [get?_positions_update_of_ne (h e' he')]

/-- No two names lead to one position, so no entry of another name comes to
the position of this one. -/
theorem reaching_eq_none (hs : s.Positioned) (h : ∀ e' ∈ es, e'.name ≠ name)
    (hi : s.positions.get? name = some i) : reaching s es i = none := by
  refine List.find?_eq_none.2 fun e' he' hreach => ?_
  exact h e' he' (hs.injective (by simpa using hreach) hi)

/-- No name leads behind the list, where the next new route will stand. -/
theorem reaching_length (hs : s.Positioned) (es : List Entry) :
    reaching s es s.routes.length = none := by
  refine List.find?_eq_none.2 fun e' _ hreach => ?_
  have hlast : s.positions.get? e'.name = some s.routes.length := by simpa using hreach
  exact Nat.lt_irrefl _ (hs.lt_length hlast)

/-! ### All entries -/

/-- The routes after entries of distinct names: each route from before has
been changed by the entry whose name leads to it, and then the routes of
the entries follow whose names led nowhere. -/
theorem routes_foldl_update (hs : s.Positioned) (hnodup : (es.map Entry.name).Nodup) :
    (es.foldl Entry.update s).routes
      = s.routes.mapIdx (afterwards s es) ++ (newcomers s es).map Entry.fresh := by
  induction es generalizing s with
  | nil =>
      have hsame : ∀ i r, afterwards s [] i r = r := fun _ => afterwards_of_none rfl
      refine List.ext_getElem? fun i => ?_
      cases h : s.routes[i]? <;> simp [newcomers, hsame, h]
  | cons e es ih =>
      obtain ⟨hnot, hnodup⟩ := List.nodup_cons.1 hnodup
      have hne : ∀ e' ∈ es, e'.name ≠ e.name := fun e' he' h =>
        hnot (h ▸ List.mem_map_of_mem he')
      have hafterwards : afterwards (e.update s) es = afterwards s es := by
        funext i r
        rw [afterwards, reaching_update hne, afterwards]
      have hnext : (e.update s).Positioned := hs.updateByName e.url e.name e.apply
      rw [List.foldl_cons, ih hnext hnodup, newcomers_update hne, hafterwards]
      cases hi : s.positions.get? e.name with
      | some k =>
          have hroutes : (e.update s).routes = s.routes.modify k e.apply :=
            RouteSet.routes_updateByName_of_some hi
          have hnew : newcomers s (e :: es) = newcomers s es :=
            List.filter_cons_of_neg (by simp [hi])
          rw [hroutes, hnew]
          congr 1
          refine List.ext_getElem? fun i => ?_
          rw [List.getElem?_mapIdx, List.getElem?_mapIdx, List.getElem?_modify]
          by_cases hik : k = i
          · -- The entries that follow do not come to the position of `e`.
            subst hik
            have hlater : reaching s es k = none := reaching_eq_none hs hne hi
            cases s.routes[k]? <;> simp [afterwards_cons_of_eq hi, afterwards_of_none hlater]
          · have hother : s.positions.get? e.name ≠ some i := by simpa [hi] using hik
            cases s.routes[i]? <;> simp [afterwards_cons_of_ne hother, hik]
      | none =>
          have hroutes : (e.update s).routes = s.routes ++ [e.fresh] :=
            RouteSet.routes_updateByName_of_none hi
          have hnew : newcomers s (e :: es) = e :: newcomers s es :=
            List.filter_cons_of_pos (by simp [hi])
          have hother : afterwards s (e :: es) = afterwards s es := by
            funext i r
            exact afterwards_cons_of_ne (by simp [hi]) r
          -- No entry that follows comes to the route that `e` has appended.
          have hlast : afterwards s es s.routes.length e.fresh = e.fresh :=
            afterwards_of_none (reaching_length hs es) e.fresh
          rw [hroutes, hnew, hother, List.mapIdx_concat, hlast]
          simp

/-- The route of a name after entries of distinct names: the one entry with
this name was applied to the route there was, or to a bare route with its URL. -/
theorem find?_foldl_update (hs : s.Positioned) (hnodup : (es.map Entry.name).Nodup)
    (name : String) :
    (es.foldl Entry.update s).find? name
      = (Keyed.find? Entry.name name es).elim (s.find? name) fun e =>
          some (e.apply ((s.find? name).getD (bare e.url name))) := by
  induction es generalizing s with
  | nil => rfl
  | cons e es ih =>
      obtain ⟨hnot, hnodup⟩ := List.nodup_cons.1 hnodup
      have hnext : (e.update s).Positioned := hs.updateByName e.url e.name e.apply
      rw [List.foldl_cons, ih hnext hnodup]
      by_cases hname : e.name = name
      · subst hname
        have hlater : Keyed.find? Entry.name e.name es = none := Keyed.find?_eq_none_iff.2 hnot
        have hself : (e.update s).find? e.name
            = some (e.apply ((s.find? e.name).getD (bare e.url e.name))) :=
          hs.find?_updateByName_self e.url e.name e.apply
        rw [hlater, Option.elim_none, hself]
        simp [Keyed.find?]
      · have hother : (e.update s).find? name = s.find? name :=
          hs.find?_updateByName_of_ne (Ne.symm hname) e.url e.apply
        rw [hother]
        simp [Keyed.find?, hname]

/-- The route of a position keeps its URL and its name. -/
theorem identity_afterwards (s : RouteSet) (es : List Entry) (i : Nat) (r : Route) :
    (afterwards s es i r).identity = r.identity := by
  unfold afterwards
  cases reaching s es i with
  | none => rfl
  | some e => exact (keepsIdentity_apply e).identity r

/-- No route gets another URL or another name, whichever entries come to them. -/
theorem identities_mapIdx_afterwards (s : RouteSet) (es : List Entry) :
    (s.routes.mapIdx (afterwards s es)).map identity = s.routes.map identity := by
  refine List.ext_getElem? fun i => ?_
  cases h : s.routes[i]? <;> simp [identity_afterwards, h]

/-! ### Another order -/

/-- The entry that comes to a position is told by its name alone, so it does
not depend on the order of the entries. -/
theorem reaching_eq_some_iff (hs : s.Positioned) (hnodup : (es.map Entry.name).Nodup) :
    reaching s es i = some e ↔ e ∈ es ∧ s.positions.get? e.name = some i := by
  constructor
  · intro h
    exact ⟨List.mem_of_find?_eq_some h, by simpa using List.find?_some h⟩
  · rintro ⟨he, hi⟩
    have hsome : (reaching s es i).isSome := List.find?_isSome.2 ⟨e, he, by simpa using hi⟩
    obtain ⟨e', he'⟩ := Option.isSome_iff_exists.1 hsome
    have hi' : s.positions.get? e'.name = some i := by simpa using List.find?_some he'
    have hname : e'.name = e.name := hs.injective hi' hi
    rw [he', List.inj_on_of_nodup_map hnodup (List.mem_of_find?_eq_some he') he hname]

/-- Permuted entries change the routes there are in the same way. -/
theorem afterwards_perm (hs : s.Positioned) (hnodup : (es.map Entry.name).Nodup)
    (h : es.Perm es') : afterwards s es = afterwards s es' := by
  have hnodup' : (es'.map Entry.name).Nodup := (h.map Entry.name).nodup_iff.1 hnodup
  funext i r
  have hsame : reaching s es i = reaching s es' i := by
    refine Option.ext fun e => ?_
    rw [reaching_eq_some_iff hs hnodup, reaching_eq_some_iff hs hnodup', h.mem_iff]
  rw [afterwards, afterwards, hsame]

/-- Two dumps with the same entries in different orders make the same
routes. The routes that were there keep their positions, URLs and names
and are the same in full after both; the appended ones are the same up to
order; and every name leads to the same route. -/
theorem importEntries_perm (hs : s.Reachable) {dump dump' : OrderedMap String Json}
    (h : dump.entries.Perm dump'.entries) :
    let t := (importEntries s dump.entries).value
    let t' := (importEntries s dump'.entries).value
    (t.routes.take s.size).map identity = s.routes.map identity ∧
    t.routes.take s.size = t'.routes.take s.size ∧
    (t.routes.drop s.size).Perm (t'.routes.drop s.size) ∧
    ∀ name, t.find? name = t'.find? name := by
  have hpositioned := hs.positioned
  have hnodup : ((usable dump.entries).map Entry.name).Nodup :=
    (names_usable_sublist dump.entries).nodup dump.distinct
  have hnodup' : ((usable dump'.entries).map Entry.name).Nodup :=
    (names_usable_sublist dump'.entries).nodup dump'.distinct
  have hperm : (usable dump.entries).Perm (usable dump'.entries) := h.filterMap _
  have hlength : (s.routes.mapIdx (afterwards s (usable dump.entries))).length = s.size :=
    List.length_mapIdx
  -- Both lists begin with the same routes.
  have hroutes : (importEntries s dump.entries).value.routes
      = s.routes.mapIdx (afterwards s (usable dump.entries))
        ++ (newcomers s (usable dump.entries)).map Entry.fresh := by
    rw [value_importEntries, routes_foldl_update hpositioned hnodup]
  have hroutes' : (importEntries s dump'.entries).value.routes
      = s.routes.mapIdx (afterwards s (usable dump.entries))
        ++ (newcomers s (usable dump'.entries)).map Entry.fresh := by
    rw [value_importEntries, routes_foldl_update hpositioned hnodup',
      ← afterwards_perm hpositioned hnodup hperm]
  refine ⟨?_, ?_, ?_, fun name => ?_⟩
  · rw [hroutes, List.take_left' hlength]
    exact identities_mapIdx_afterwards s _
  · rw [hroutes, hroutes', List.take_left' hlength, List.take_left' hlength]
  · rw [hroutes, hroutes', List.drop_left' hlength, List.drop_left' hlength]
    exact (hperm.filter _).map _
  · rw [value_importEntries, value_importEntries, find?_foldl_update hpositioned hnodup,
      find?_foldl_update hpositioned hnodup', Keyed.find?_perm hnodup hperm]

/-- A set with two routes named `list`, and two with the URL `/a`. -/
def sharingSet : RouteSet :=
  (((RouteSet.insertByUrl ∅ (bare "/a" "list")).1.insertByUrl (bare "/b" "list")).1.updateByName
    "/a" "show" fun r => r.attach (.empty .post))

/-- The set whose routes share URLs and names is reached by insertions and an
update. -/
theorem reachable_sharingSet : sharingSet.Reachable :=
  ((RouteSet.Reachable.empty.insertByUrl _).insertByUrl _).updateByName _ _ _

/-- A dump with two new routes of one URL, which a route that is there has
as well, and with an entry that cannot be read. -/
def sharingDump : OrderedMap String Json where
  entries := [
    ("late", .object [("path", .string "/b"), ("method", .string "DELETE")]),
    ("list", .object [("path", .string "/b/\x7bid\x7d"), ("method", .string "PUT|GET")]),
    ("broken", .object [("method", .string "GET")]),
    ("show", .object [("path", .string "/b"), ("method", .string "GET|POST")]),
    ("early", .object [("path", .string "/b"), ("method", .string "GET")])]
  distinct := by decide

/-- The same dump from its end. -/
def reversedSharingDump : OrderedMap String Json where
  entries := sharingDump.entries.reverse
  distinct := by decide

/-- A dump and its reverse, imported into a set where routes share URLs and
names: the old routes are the same, and the new ones stand in the order of the
dump. -/
theorem importEntries_reversedSharingDump :
    sharingSet.Reachable ∧ sharingDump.entries.Perm reversedSharingDump.entries ∧
    let t := (importEntries sharingSet sharingDump.entries).value
    let t' := (importEntries sharingSet reversedSharingDump.entries).value
    t.routes.map (fun r => (r.url, r.name, r.verbs))
        = [("/a", "list", [.put, .get]), ("/b", "list", []), ("/a", "show", [.post, .get]),
          ("/b", "late", [.delete]), ("/b", "early", [.get])] ∧
      (t.routes.take 3).map identity = sharingSet.routes.map identity ∧
      t.routes.take 3 = t'.routes.take 3 ∧
      (t.routes.drop 3).Perm (t'.routes.drop 3) ∧
      ∀ name, t.find? name = t'.find? name := by
  have hperm : sharingDump.entries.Perm reversedSharingDump.entries :=
    (List.reverse_perm _).symm
  exact ⟨reachable_sharingSet, hperm, by decide +kernel,
    importEntries_perm reachable_sharingSet hperm⟩

end RouteDoc.Dump
