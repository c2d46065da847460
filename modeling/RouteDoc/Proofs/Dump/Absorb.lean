import RouteDoc.Proofs.Dump.Import
import RouteDoc.Proofs.Route

/-!
# `RouteDoc.Proofs.Dump.Absorb`: a list of routes after a whole dump

The keys of a dump are distinct, so no route is touched by two of its
entries. That makes the fold `absorb` come apart: the routes that were
there stay where they are, each changed by the entry of its name if it
is the first of that name, and behind them stands one new route per
entry whose name was not there.

* `absorb_eq`: the two parts.
* `getElem?_refresh`: what becomes of each route that was there.
* `find?_absorb`: the first route of every name afterwards.
* `mem_verbs_apply`: an entry adds its verbs to a route, and no other.
-/

set_option autoImplicit false

namespace RouteDoc

open Route

namespace Dump

/-- The routes that were there, after entries of a dump: every entry
has changed the first route of its name. -/
def refresh (es : List Entry) (rs : List Route) : List Route :=
  es.foldl (fun rs e => modifyFirst e.name e.apply rs) rs

/-- The entries whose names are not there yet. -/
def added (es : List Entry) (rs : List Route) : List Entry :=
  es.filter fun e => e.name ∉ rs.map Route.name

/-- The new route of an entry. -/
def Entry.fresh (e : Entry) : Route := e.apply (bare e.url e.name)

/-- A route after the entry of its name, if there is one. -/
def touched (es : List Entry) (r : Route) : Route :=
  (es.find? fun e => e.name = r.name).elim r fun e => e.apply r

variable {es : List Entry} {rs : List Route}

/-! ### The two parts -/

/-- Entries do not change routes with names that they do not have, so such
routes may stand behind the ones that are refreshed. -/
theorem refresh_append {ts : List Route} (h : ∀ e ∈ es, e.name ∉ ts.map Route.name) :
    refresh es (rs ++ ts) = refresh es rs ++ ts := by
  induction es generalizing rs with
  | nil => rfl
  | cons e es ih =>
      have he : modifyFirst e.name e.apply ts = ts := modifyFirst_of_not_mem (h e (by simp))
      simp only [refresh, List.foldl_cons, modifyFirst_append, he, ite_self]
      exact ih fun e' he' => h e' (by simp [he'])

/-- Whether an entry is added depends only on its name being known: the first
entry of the list is added in front of the others that are. -/
theorem added_cons (e : Entry) (es : List Entry) (rs : List Route) :
    added (e :: es) rs
      = if e.name ∈ rs.map Route.name then added es rs else e :: added es rs := by
  split
  · next hmem => exact List.filter_cons_of_neg (by simpa using hmem)
  · next hnot => exact List.filter_cons_of_pos (by simpa using hnot)

/-- Entries of distinct names change the routes that were there and
append one route for each new name. -/
theorem absorb_eq (hnodup : (es.map Entry.name).Nodup) :
    absorb es rs = refresh es rs ++ (added es rs).map Entry.fresh := by
  induction es generalizing rs with
  | nil => simp [absorb, refresh, added]
  | cons e es ih =>
      obtain ⟨hnot, hnodup⟩ := List.nodup_cons.1 hnodup
      have hne : ∀ e' ∈ es, e'.name ≠ e.name := fun e' he' h =>
        hnot (h ▸ List.mem_map_of_mem he')
      show absorb es (upsert e.url e.name e.apply rs) = _
      rw [ih hnodup]
      by_cases hmem : e.name ∈ rs.map Route.name
      · -- The first route of the name changes, and the names stay.
        have hsame : added es (modifyFirst e.name e.apply rs) = added es rs := by
          simp only [added, map_modifyFirst (keepsIdentity_apply e).name]
        rw [upsert, if_pos hmem, hsame, added_cons, if_pos hmem]
        rfl
      · -- The new route is not touched by the entries that follow.
        have hsame : added es (rs ++ [e.apply (bare e.url e.name)]) = added es rs := by
          refine List.filter_congr fun e' he' => ?_
          simp [(keepsIdentity_apply e).name, bare, hne e' he']
        have hkeep : ∀ e' ∈ es,
            e'.name ∉ [e.apply (bare e.url e.name)].map Route.name := by
          intro e' he'
          simp [(keepsIdentity_apply e).name, bare, hne e' he']
        rw [upsert, if_neg hmem, refresh_append hkeep, hsame, added_cons, if_neg hmem]
        simp [refresh, modifyFirst_of_not_mem hmem, Entry.fresh]

/-- Refreshing keeps the URL and the name of every route, and their order. The
indexes of a route set are made from these, so they stay as they were. -/
theorem identities_refresh (es : List Entry) (rs : List Route) :
    (refresh es rs).map identity = rs.map identity := by
  induction es generalizing rs with
  | nil => rfl
  | cons e es ih => exact (ih _).trans (map_modifyFirst (keepsIdentity_apply e).identity)

/-- Refreshing neither adds nor removes a route. -/
theorem length_refresh (es : List Entry) (rs : List Route) :
    (refresh es rs).length = rs.length := by
  simpa using congrArg List.length (identities_refresh es rs)

/-- The route made for an entry has the URL and the name of the entry:
applying the entry to the new route adds verbs and parameters only. -/
theorem identity_fresh (e : Entry) : e.fresh.identity = (e.url, e.name) :=
  (keepsIdentity_apply e).identity _

/-- The URLs and names after entries of distinct names: those from
before, then those of the entries with new names. -/
theorem identities_absorb (hnodup : (es.map Entry.name).Nodup) :
    (absorb es rs).map identity
      = rs.map identity ++ (added es rs).map fun e => (e.url, e.name) := by
  rw [absorb_eq hnodup, List.map_append, identities_refresh, List.map_map]
  congr 1
  exact List.map_congr_left fun e _ => identity_fresh e

/-! ### Each route -/

/-- The first entry of a name is the one that is applied to the route. -/
theorem touched_cons_of_eq {e : Entry} {r : Route} (h : e.name = r.name) :
    touched (e :: es) r = e.apply r := by
  simp [touched, h]

/-- An entry of another name leaves the route to the entries after it. -/
theorem touched_cons_of_ne {e : Entry} {r : Route} (h : e.name ≠ r.name) :
    touched (e :: es) r = touched es r := by
  simp [touched, h]

/-- A route whose name no entry has is left alone. -/
theorem touched_of_not_mem {r : Route} (h : r.name ∉ es.map Entry.name) :
    touched es r = r := by
  have hnone : es.find? (fun e => e.name = r.name) = none := by
    simpa using h
  simp [touched, hnone]

/-- A route that was there stays as it is if an earlier route has its
name, and else it is changed by the entry of its name. -/
theorem getElem?_refresh (hnodup : (es.map Entry.name).Nodup) (i : Nat) :
    (refresh es rs)[i]?
      = rs[i]?.map fun r =>
          if r.name ∈ (rs.take i).map Route.name then r else touched es r := by
  induction es generalizing rs with
  | nil => simp [refresh, touched]
  | cons e es ih =>
      obtain ⟨hnot, hnodup⟩ := List.nodup_cons.1 hnodup
      show (refresh es (modifyFirst e.name e.apply rs))[i]? = _
      have hname := (keepsIdentity_apply e).name
      rw [ih hnodup, getElem?_modifyFirst, Option.map_map, List.map_take,
        map_modifyFirst hname, ← List.map_take]
      congr 1
      funext r
      simp only [Function.comp_apply]
      by_cases hfirst : r.name ∈ (rs.take i).map Route.name
      · -- An earlier route has the name, so no entry reaches this one.
        have hsame : (if r.name = e.name ∧ e.name ∉ (rs.take i).map Route.name
            then e.apply r else r) = r := if_neg fun h => h.2 (h.1 ▸ hfirst)
        rw [hsame, if_pos hfirst, if_pos hfirst]
      · by_cases hr : r.name = e.name
        · -- The entries that follow have other names, so the route is done.
          have hchanged : (if r.name = e.name ∧ e.name ∉ (rs.take i).map Route.name
              then e.apply r else r) = e.apply r := if_pos ⟨hr, hr ▸ hfirst⟩
          have hdone : (e.apply r).name ∉ es.map Entry.name := by rwa [hname, hr]
          rw [hchanged, hname, if_neg hfirst, if_neg hfirst, touched_of_not_mem hdone,
            touched_cons_of_eq hr.symm]
        · have hsame : (if r.name = e.name ∧ e.name ∉ (rs.take i).map Route.name
              then e.apply r else r) = r := if_neg fun h => hr h.1
          rw [hsame, if_neg hfirst, if_neg hfirst, touched_cons_of_ne (Ne.symm hr)]

/-- A name that no entry has is found as before. New routes stand behind the
old ones and have names of entries, so they do not come in between. -/
theorem find?_absorb_of_not_mem {n : String} (h : n ∉ es.map Entry.name) :
    (absorb es rs).find? (fun r => r.name = n) = rs.find? fun r => r.name = n := by
  induction es generalizing rs with
  | nil => rfl
  | cons e es ih =>
      simp only [List.map_cons, List.mem_cons, not_or] at h
      show (absorb es (upsert e.url e.name e.apply rs)).find? _ = _
      rw [ih h.2, find?_upsert (keepsIdentity_apply e), if_neg (Ne.symm h.1)]

/-- Under the name of an entry one finds the first route of that name
from before, or a new one, after the entry. -/
theorem find?_absorb (hnodup : (es.map Entry.name).Nodup) {e : Entry} (he : e ∈ es) :
    (absorb es rs).find? (fun r => r.name = e.name)
      = some (e.apply ((rs.find? fun r => r.name = e.name).getD (bare e.url e.name))) := by
  induction es generalizing rs with
  | nil => simp at he
  | cons e' es ih =>
      obtain ⟨hnot, hnodup⟩ := List.nodup_cons.1 hnodup
      show (absorb es (upsert e'.url e'.name e'.apply rs)).find? _ = _
      rcases List.mem_cons.1 he with rfl | he
      · -- No entry behind `e` has its name, so the route stays as `e` leaves it.
        rw [find?_absorb_of_not_mem hnot, find?_upsert (keepsIdentity_apply e), if_pos rfl]
      · have hne : e'.name ≠ e.name := fun h => hnot (h ▸ List.mem_map_of_mem he)
        rw [ih hnodup he, find?_upsert (keepsIdentity_apply e'), if_neg hne]

/-! ### The verbs of an entry -/

/-- An entry adds its verbs to a route, and no other. -/
theorem mem_verbs_apply (e : Entry) (r : Route) (v : Verb) :
    v ∈ (e.apply r).verbs ↔ v ∈ r.verbs ∨ v ∈ e.verbs := by
  rw [Entry.apply, verbs_foldl_update]
  simp only [List.mem_append, List.mem_filter, List.mem_eraseDups, decide_eq_true_eq]
  tauto

end Dump

end RouteDoc
