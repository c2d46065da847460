import Mathlib.Data.List.Basic
import RouteDoc.RouteSet

/-!
# `RouteDoc.Proofs.RouteSet.Index`: the two indexes of a route set

A route set keeps its routes in a list, and beside the list the URLs
and, for every name, the position of the first route of that name.
`Named` says that the positions agree with the list, `Indexed` that both
do. As long as that is so, every operation can be read off the list
alone:

* `routes_insertByUrl`: an insertion by URL appends a route unless the
  list has its URL.
* `Named.routes_updateByName`: an update by name changes the first route of
  that name, or appends one.
* `find?_eq`: looking up a name finds the first route of that name.

The step lemmas `indexed_append`, `indexed_insertByUrl` and
`indexed_updateByName` say that each operation keeps the indexes right.
An update may do anything to a route but change its URL or its name
(`KeepsIdentity`), because the indexes would not notice.
-/

set_option autoImplicit false

namespace RouteDoc

/-! ### Routes in a list -/

namespace Route

/-- What tells a route apart: its URL and its name. -/
def identity (r : Route) : String × String := (r.url, r.name)

/-- A change to a route that leaves its URL and its name alone. -/
structure KeepsIdentity (f : Route → Route) : Prop where
  url : ∀ r, (f r).url = r.url
  name : ∀ r, (f r).name = r.name

/-- A change that keeps the URL and the name keeps them as a pair. -/
theorem KeepsIdentity.identity {f : Route → Route} (hf : KeepsIdentity f) (r : Route) :
    (f r).identity = r.identity :=
  Prod.ext (hf.url r) (hf.name r)

/-- The routes with `f` applied to the first one named `name`. -/
def modifyFirst (name : String) (f : Route → Route) : List Route → List Route
  | [] => []
  | r :: rs => if r.name = name then f r :: rs else r :: modifyFirst name f rs

/-- The routes with `f` applied to the first one named `name`; if there
is none, `f` of a route without verbs comes last. -/
def upsert (url name : String) (f : Route → Route) (rs : List Route) : List Route :=
  if name ∈ rs.map Route.name then modifyFirst name f rs else rs ++ [f (bare url name)]

/-- The routes with `r` at the end, unless its URL is there. -/
def insertNew (rs : List Route) (r : Route) : List Route :=
  if r.url ∈ rs.map Route.url then rs else rs ++ [r]

variable {f : Route → Route} {name : String} {rs : List Route}

/-- Whatever `f` leaves alone in every route is the same after
`modifyFirst`. -/
theorem map_modifyFirst {α : Type} {g : Route → α} (hg : ∀ r, g (f r) = g r) :
    (modifyFirst name f rs).map g = rs.map g := by
  induction rs with
  | nil => rfl
  | cons r rs ih =>
      by_cases h : r.name = name
      · simp [modifyFirst, h, hg]
      · simp [modifyFirst, h, ih]

/-- There is no route to modify when none has the name. -/
theorem modifyFirst_of_not_mem (h : name ∉ rs.map Route.name) : modifyFirst name f rs = rs := by
  induction rs with
  | nil => rfl
  | cons r rs ih =>
      simp only [List.map_cons, List.mem_cons, not_or] at h
      simp [modifyFirst, Ne.symm h.1, ih h.2]

/-- In a list of two parts, `modifyFirst` changes the second part only
if the first one does not have the name. -/
theorem modifyFirst_append (ts : List Route) :
    modifyFirst name f (rs ++ ts)
      = modifyFirst name f rs
        ++ if name ∈ rs.map Route.name then ts else modifyFirst name f ts := by
  induction rs with
  | nil => simp [modifyFirst]
  | cons r rs ih =>
      by_cases hr : r.name = name
      · simp [modifyFirst, hr]
      · simp [modifyFirst, hr, ih, Ne.symm hr]

/-- The route at each position after `modifyFirst`: it has changed if it
is the first of the name. -/
theorem getElem?_modifyFirst (i : Nat) :
    (modifyFirst name f rs)[i]?
      = rs[i]?.map fun r =>
          if r.name = name ∧ name ∉ (rs.take i).map Route.name then f r else r := by
  induction rs generalizing i with
  | nil => rfl
  | cons r rs ih =>
      by_cases hr : r.name = name
      · cases i with
        | zero => simp [modifyFirst, hr]
        | succ i => simp [modifyFirst, hr]
      · cases i with
        | zero => simp [modifyFirst, hr]
        | succ i => simp [modifyFirst, hr, ih, Ne.symm hr]

/-- Where the first route of the name stands, `modifyFirst` applies
`f`. -/
theorem modify_eq_modifyFirst {i : Nat}
    (h : rs.findIdx? (fun r => r.name = name) = some i) :
    rs.modify i f = modifyFirst name f rs := by
  induction rs generalizing i with
  | nil => simp at h
  | cons r rs ih =>
      by_cases hr : r.name = name
      · simp only [List.findIdx?_cons, hr, decide_true, if_true, Option.some.injEq] at h
        simp [modifyFirst, hr, ← h]
      · simp only [List.findIdx?_cons, hr, decide_false, Bool.false_eq_true, if_false,
          Option.map_eq_some_iff] at h
        obtain ⟨j, hj, rfl⟩ := h
        simp [modifyFirst, hr, ih hj]

/-- Modifying the first route of a name changes what is found under this name,
and under no other. The routes of the same name behind it are never found. -/
theorem find?_modifyFirst (hf : KeepsIdentity f) (n : String) :
    (modifyFirst name f rs).find? (fun r => r.name = n)
      = (rs.find? fun r => r.name = n).map fun r => if r.name = name then f r else r := by
  induction rs with
  | nil => rfl
  | cons r rs ih =>
      by_cases hr : r.name = name
      · by_cases hn : name = n
        · simp [modifyFirst, hr, hf.name, hn]
        · -- The route that changes has the name `name`; the one looked for has another.
          have hother : ∀ t ∈ rs.find? (fun r => r.name = n), ¬t.name = name := by
            intro t ht hname
            have htn : t.name = n := by simpa using List.find?_some ht
            exact hn (hname.symm.trans htn)
          cases hfind : rs.find? (fun r => r.name = n) with
          | none => simp [modifyFirst, hr, hf.name, hn, hfind]
          | some t => simp [modifyFirst, hr, hf.name, hn, hfind, hother t hfind]
      · by_cases hn : r.name = n
        · have hname : n ≠ name := hn ▸ hr
          simp [modifyFirst, hn, hname]
        · simp [modifyFirst, hr, hn, ih]

/-- Whatever was found under the name has been changed, and a bare route if
nothing was found. What is found under other names stays. -/
theorem find?_upsert (hf : KeepsIdentity f) (url n : String) :
    (upsert url name f rs).find? (fun r => r.name = n)
      = if name = n then some (f ((rs.find? fun r => r.name = n).getD (bare url n)))
        else rs.find? fun r => r.name = n := by
  unfold upsert
  split
  · next hmem =>
    rw [find?_modifyFirst hf]
    cases hfind : rs.find? (fun r => r.name = n) with
    | none =>
        have hne : name ≠ n := by
          obtain ⟨r, hr, rfl⟩ := List.mem_map.1 hmem
          simpa using List.find?_eq_none.1 hfind r hr
        simp [hne]
    | some t =>
        have ht : t.name = n := by simpa using List.find?_some hfind
        by_cases hn : name = n
        · simp [hn, ht]
        · simp [hn, ht, Ne.symm hn]
  · next hnot =>
    have hbare : (f (bare url name)).name = name := hf.name _
    by_cases hn : name = n
    · subst hn
      have hnone : rs.find? (fun r => r.name = name) = none := by simpa using hnot
      simp [List.find?_append, hnone, hbare]
    · simp [List.find?_append, hbare, hn]

/-- The identities after `upsert`: a name that is there adds nothing,
another one comes last. -/
theorem identities_upsert (hf : KeepsIdentity f) {url : String} :
    (upsert url name f rs).map identity
      = if name ∈ rs.map Route.name then rs.map identity
        else rs.map identity ++ [(url, name)] := by
  unfold upsert
  split
  · exact map_modifyFirst hf.identity
  · rw [List.map_append, List.map_singleton, hf.identity]
    rfl

end Route

/-! ### The invariant -/

namespace RouteSet

open Route

/-- The index of names agrees with the list of routes: every name has the
position of the first route of that name. -/
structure Named (s : RouteSet) : Prop where
  positions : ∀ name, s.positions.get? name = s.routes.findIdx? fun r => r.name = name

/-- Both indexes of a set agree with its list of routes. -/
structure Indexed (s : RouteSet) : Prop extends Named s where
  /-- The URLs are those of the routes. -/
  urls : ∀ url, url ∈ s.urls ↔ url ∈ s.routes.map Route.url

variable {s : RouteSet} {r : Route} {url name : String} {f : Route → Route}

/-- The indexes of the empty set are right. -/
theorem indexed_empty : Indexed ∅ where
  urls url := by simp [EmptyCollection.emptyCollection, empty]
  positions name := rfl

/-- A position is known for exactly the names of the routes. -/
theorem Named.get?_eq_none_iff (h : Named s) :
    s.positions.get? name = none ↔ name ∉ s.routes.map Route.name := by
  rw [h.positions, List.findIdx?_eq_none_iff]
  simp

/-- The names with a position are those of the routes. -/
theorem Named.mem_keys_iff (h : Named s) (name : String) :
    name ∈ s.positions.keys ↔ name ∈ s.routes.map Route.name := by
  have hiff := OrderedMap.get?_eq_none_iff (m := s.positions) (k := name)
  rw [h.get?_eq_none_iff] at hiff
  exact not_iff_not.1 hiff.symm

/-- The position of a name is the least one that holds a route of that
name. -/
theorem Named.get?_eq_some_iff (h : Named s) {i : Nat} :
    s.positions.get? name = some i ↔
      (∃ r, s.routes[i]? = some r ∧ r.name = name) ∧
        ∀ j < i, ∀ r, s.routes[j]? = some r → r.name ≠ name := by
  rw [h.positions, List.findIdx?_eq_some_iff_getElem]
  constructor
  · rintro ⟨hi, hname, hleast⟩
    refine ⟨⟨_, List.getElem?_eq_getElem hi, by simpa using hname⟩, fun j hj r hr => ?_⟩
    obtain ⟨hjlt, rfl⟩ := List.getElem?_eq_some_iff.1 hr
    simpa using hleast j hj
  · rintro ⟨⟨r, hr, hname⟩, hleast⟩
    obtain ⟨hi, rfl⟩ := List.getElem?_eq_some_iff.1 hr
    refine ⟨hi, by simpa using hname, fun j hj => ?_⟩
    simpa using hleast j hj _ (List.getElem?_eq_getElem (Nat.lt_trans hj hi))

/-- Looking up a name finds the first route of that name. The set looks it up
by position; here the list is all that counts. -/
theorem Named.find?_eq (h : Named s) (name : String) :
    s.find? name = s.routes.find? fun r => r.name = name := by
  unfold RouteSet.find?
  rw [h.positions]
  cases hi : s.routes.findIdx? (fun r => r.name = name) with
  | none =>
      rw [Option.bind_none, eq_comm, List.find?_eq_none]
      simpa using List.findIdx?_eq_none_iff.1 hi
  | some i =>
      obtain ⟨hlt, hname, hleast⟩ := List.findIdx?_eq_some_iff_getElem.1 hi
      rw [Option.bind_some, List.getElem?_eq_getElem hlt]
      symm
      rw [List.find?_eq_some_iff_getElem]
      exact ⟨hname, i, hlt, rfl, fun j hj => by simpa using hleast j hj⟩

/-! ### One operation -/

/-- Appending a route keeps the index of names right. It takes the new
position only if no earlier route has the name. -/
theorem Named.append (h : Named s) (r : Route) : Named (s.append r) := by
  refine ⟨fun name => ?_⟩
  simp only [RouteSet.append, List.findIdx?_append]
  -- A known name keeps its earlier position.
  split
  · next hknown =>
    rw [h.positions]
    cases hi : s.routes.findIdx? (fun r => r.name = name) with
    | some i => rfl
    | none =>
        have hne : r.name ≠ name := by
          rintro rfl
          simp [OrderedMap.contains, h.positions, hi] at hknown
        simp [hne]
  · next hnew =>
    have hnone : s.positions.get? r.name = none := by
      simpa [OrderedMap.contains] using hnew
    by_cases hname : name = r.name
    · subst hname
      rw [h.positions] at hnone
      simp [hnone]
    · rw [OrderedMap.get?_insert_of_ne hname, h.positions]
      simp [Ne.symm hname]

/-- Appending a route keeps both indexes right. A URL or a name that is known
stays with the route that had it first. -/
theorem indexed_append (h : Indexed s) (r : Route) : Indexed (s.append r) where
  urls url := by
    simp only [append, List.map_append, List.mem_append, List.map_singleton,
      List.mem_singleton]
    split
    · next hmem =>
      constructor
      · exact fun hurl => Or.inl ((h.urls url).1 hurl)
      · rintro (hurl | rfl)
        · exact (h.urls url).2 hurl
        · exact hmem
    · simp [h.urls url]
  toNamed := h.toNamed.append r

/-- An insertion appends the route if its URL is new, and else leaves the list
as it is. -/
theorem routes_insertByUrl (h : Indexed s) (r : Route) :
    (s.insertByUrl r).1.routes = insertNew s.routes r := by
  by_cases hurl : r.url ∈ s.urls
  · rw [insertByUrl_of_mem hurl, insertNew, if_pos ((h.urls _).1 hurl)]
  · rw [insertByUrl_of_not_mem hurl, insertNew, if_neg (mt (h.urls _).2 hurl)]
    rfl

/-- What is so of a set, and of the set with a route at its end, is so after
the route has been inserted by its URL. -/
theorem insertByUrl_induction {P : RouteSet → Prop} (hs : P s) (happend : P (s.append r)) :
    P (s.insertByUrl r).1 := by
  by_cases hurl : r.url ∈ s.urls
  · rw [insertByUrl_of_mem hurl]
    exact hs
  · rw [insertByUrl_of_not_mem hurl]
    exact happend

/-- Inserting a route keeps the index of names right. -/
theorem Named.insertByUrl (h : Named s) (r : Route) : Named (s.insertByUrl r).1 :=
  insertByUrl_induction h (h.append r)

/-- Inserting a route keeps both indexes right. -/
theorem indexed_insertByUrl (h : Indexed s) (r : Route) : Indexed (s.insertByUrl r).1 :=
  insertByUrl_induction h (indexed_append h r)

/-- An update by name changes the first route of the name, or appends a
changed bare route. It finds the position in the index, where the list would
be searched. -/
theorem Named.routes_updateByName (h : Named s) (url name : String) (f : Route → Route) :
    (s.updateByName url name f).routes = upsert url name f s.routes := by
  cases hi : s.positions.get? name with
  | none => rw [routes_updateByName_of_none hi, upsert, if_neg (h.get?_eq_none_iff.1 hi)]
  | some i =>
      have hmem : name ∈ s.routes.map Route.name := by
        rw [← h.mem_keys_iff]
        by_contra hnot
        simp [OrderedMap.get?_eq_none_iff.2 hnot] at hi
      rw [routes_updateByName_of_some hi, upsert, if_pos hmem]
      exact modify_eq_modifyFirst (h.positions name ▸ hi)

/-- The index of names sees nothing of a route but its name. -/
theorem Named.of_names {t : RouteSet} (h : Named s) (hpositions : t.positions = s.positions)
    (hnames : t.routes.map Route.name = s.routes.map Route.name) : Named t := by
  refine ⟨fun name => ?_⟩
  have hidx := congrArg (List.findIdx? fun n => n = name) hnames
  rw [List.findIdx?_map, List.findIdx?_map] at hidx
  rw [hpositions, h.positions]
  exact hidx.symm

/-- A change that leaves the route its name is not seen in the index. -/
theorem Named.updateByName (h : Named s) (url name : String)
    (hf : ∀ r, (f r).name = r.name) : Named (s.updateByName url name f) := by
  cases hi : s.positions.get? name with
  | some i =>
      refine h.of_names (by simp [RouteSet.updateByName, hi]) ?_
      rw [routes_updateByName_of_some hi,
        modify_eq_modifyFirst (h.positions name ▸ hi), map_modifyFirst hf]
  | none =>
      refine (h.append (Route.bare url name)).of_names (by simp [RouteSet.updateByName, hi]) ?_
      rw [routes_updateByName_of_none hi]
      simp [RouteSet.append, hf]

/-- The indexes see nothing of a route but its URL and its name. -/
theorem indexed_of_identities {t : RouteSet} (h : Indexed s) (hurls : t.urls = s.urls)
    (hpositions : t.positions = s.positions)
    (hroutes : t.routes.map identity = s.routes.map identity) : Indexed t where
  urls url := by
    have hu : t.routes.map Route.url = s.routes.map Route.url := by
      have hfst := congrArg (List.map Prod.fst) hroutes
      rwa [List.map_map, List.map_map] at hfst
    rw [hurls, hu, h.urls]
  toNamed := by
    have hn : t.routes.map Route.name = s.routes.map Route.name := by
      have hsnd := congrArg (List.map Prod.snd) hroutes
      rwa [List.map_map, List.map_map] at hsnd
    exact h.toNamed.of_names hpositions hn

/-- An update by name keeps the indexes right as long as it keeps the
URL and the name of the route. A route that it appends is indexed before
`f` is applied. -/
theorem indexed_updateByName (h : Indexed s) (hf : KeepsIdentity f) :
    Indexed (s.updateByName url name f) := by
  cases hi : s.positions.get? name with
  | some i =>
      refine indexed_of_identities h (by simp [updateByName, hi]) (by simp [updateByName, hi]) ?_
      have hfirst : s.routes.modify i f = modifyFirst name f s.routes :=
        modify_eq_modifyFirst (h.positions name ▸ hi)
      rw [routes_updateByName_of_some hi, hfirst, map_modifyFirst hf.identity]
  | none =>
      refine indexed_of_identities (indexed_append h (bare url name))
        (by simp [updateByName, hi]) (by simp [updateByName, hi]) ?_
      rw [routes_updateByName_of_none hi]
      simp [append, hf.identity]

end RouteSet

end RouteDoc
