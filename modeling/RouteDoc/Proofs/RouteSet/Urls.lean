import Mathlib.Data.List.Induction
import RouteDoc.Proofs.RouteSet.Index

/-!
# `RouteDoc.Proofs.RouteSet.Urls`: routes that go in by URL

Routes that go into the empty set by URL, one after the other, leave
there the ones whose URL has not come before, in their order
(`firstOfUrl`).

* `routes_insertAllByUrl`: the list of a set after several insertions.
* `foldl_insertNew_nil`: from the empty list on, that is `firstOfUrl`.
* `nodup_urls_firstOfUrl`: its URLs are distinct.
* `mem_urls_insertAllByUrl`: the URLs of a set after several insertions.
* `insertAllByUrl_of_forall_mem`: routes with known URLs change nothing.
-/

set_option autoImplicit false

namespace RouteDoc

namespace Route

/-- The routes without those whose URL has come before. -/
def firstOfUrl (rs : List Route) : List Route :=
  (rs.zipIdx.filter fun (r, i) => r.url ∉ (rs.take i).map Route.url).map Prod.fst

/-- One more route at the end is kept if its URL is new. -/
theorem firstOfUrl_append_singleton (rs : List Route) (r : Route) :
    firstOfUrl (rs ++ [r])
      = firstOfUrl rs ++ if r.url ∈ rs.map Route.url then [] else [r] := by
  have hbefore : rs.zipIdx.filter (fun (t, i) => t.url ∉ ((rs ++ [r]).take i).map Route.url)
      = rs.zipIdx.filter fun (t, i) => t.url ∉ (rs.take i).map Route.url := by
    -- The routes before a place are the same with `r` behind the last one.
    refine List.filter_congr fun ⟨t, i⟩ hp => ?_
    have hi : i ≤ rs.length := by
      have := List.snd_lt_of_mem_zipIdx hp
      omega
    simp only [List.take_append_of_le_length hi]
  have hlast : (([r].zipIdx rs.length).filter fun (t, i) =>
        t.url ∉ ((rs ++ [r]).take i).map Route.url).map Prod.fst
      = if r.url ∈ rs.map Route.url then [] else [r] := by
    by_cases h : r.url ∈ rs.map Route.url
    · rw [if_pos h, List.zipIdx_singleton, List.filter_cons_of_neg]
      · rfl
      · simpa using h
    · rw [if_neg h, List.zipIdx_singleton, List.filter_cons_of_pos]
      · rfl
      · simpa using h
  rw [firstOfUrl, List.zipIdx_append, List.filter_append, List.map_append, Nat.zero_add,
    hbefore, hlast]
  rfl

/-- Leaving out the later routes of a URL loses no URL. -/
theorem mem_urls_firstOfUrl (rs : List Route) (url : String) :
    url ∈ (firstOfUrl rs).map Route.url ↔ url ∈ rs.map Route.url := by
  induction rs using List.reverseRecOn with
  | nil => exact Iff.rfl
  | append_singleton rs r ih =>
      -- If `r` is dropped, an earlier route has its URL.
      rw [firstOfUrl_append_singleton, List.map_append, List.map_append, List.mem_append,
        List.mem_append, ih]
      split
      · next hmem =>
        constructor
        · rintro (h | h)
          · exact Or.inl h
          · simp at h
        · rintro (h | h)
          · exact Or.inl h
          · rw [List.map_singleton, List.mem_singleton] at h
            exact Or.inl (h ▸ hmem)
      · exact Iff.rfl

/-- The routes that are left have distinct URLs. -/
theorem nodup_urls_firstOfUrl (rs : List Route) : ((firstOfUrl rs).map Route.url).Nodup := by
  induction rs using List.reverseRecOn with
  | nil => exact List.Pairwise.nil
  | append_singleton rs r ih =>
      rw [firstOfUrl_append_singleton]
      split
      · simpa using ih
      · next hnew =>
        rw [List.map_append, List.nodup_append]
        refine ⟨ih, by simp, fun url hurl other hother heq => ?_⟩
        rw [List.map_singleton, List.mem_singleton] at hother
        exact hnew ((mem_urls_firstOfUrl rs _).1 (hother ▸ heq ▸ hurl))

/-- Routes inserted one by one into the empty list are those whose URL
has not come before. -/
theorem foldl_insertNew_nil (rs : List Route) : rs.foldl insertNew [] = firstOfUrl rs := by
  induction rs using List.reverseRecOn with
  | nil => rfl
  | append_singleton rs r ih =>
      rw [List.foldl_append, List.foldl_cons, List.foldl_nil, ih, firstOfUrl_append_singleton,
        insertNew]
      simp only [mem_urls_firstOfUrl]
      split
      · exact (List.append_nil _).symm
      · rfl

end Route

namespace RouteSet

open Route

/-- Inserting a list of routes keeps both indexes right. -/
theorem indexed_insertAllByUrl {s : RouteSet} (h : Indexed s) (rs : List Route) :
    Indexed (s.insertAllByUrl rs) := by
  induction rs generalizing s with
  | nil => exact h
  | cons r rs ih => exact ih (indexed_insertByUrl h r)

/-- The list of routes after a list of insertions, without the indexes. -/
theorem routes_insertAllByUrl {s : RouteSet} (h : Indexed s) (rs : List Route) :
    (s.insertAllByUrl rs).routes = rs.foldl insertNew s.routes := by
  induction rs generalizing s with
  | nil => rfl
  | cons r rs ih =>
      rw [List.foldl_cons, ← routes_insertByUrl h]
      exact ih (indexed_insertByUrl h r)

variable {s : RouteSet} {url : String}

/-! ### The URLs of a set -/

/-- Appending a route makes its URL known, and no other. -/
theorem mem_urls_append (s : RouteSet) (r : Route) :
    url ∈ (s.append r).urls ↔ url ∈ s.urls ∨ url = r.url := by
  simp only [append]
  split
  · next hknown =>
    constructor
    · exact Or.inl
    · rintro (h | rfl)
      · exact h
      · exact hknown
  · simp

/-- The URL of an inserted route is known, whether the route was appended or a
route with its URL was there. -/
theorem mem_urls_insertByUrl (s : RouteSet) (r : Route) :
    url ∈ (s.insertByUrl r).1.urls ↔ url ∈ s.urls ∨ url = r.url := by
  by_cases hurl : r.url ∈ s.urls
  · rw [insertByUrl_of_mem hurl]
    constructor
    · exact Or.inl
    · rintro (h | rfl)
      · exact h
      · exact hurl
  · rw [insertByUrl_of_not_mem hurl]
    exact mem_urls_append s r

/-- The URLs after a list of insertions are those from before and those of the
routes. -/
theorem mem_urls_insertAllByUrl (s : RouteSet) (rs : List Route) :
    url ∈ (s.insertAllByUrl rs).urls ↔ url ∈ s.urls ∨ ∃ r ∈ rs, url = r.url := by
  induction rs generalizing s with
  | nil => simp [insertAllByUrl]
  | cons r rs ih =>
      have hstep : s.insertAllByUrl (r :: rs) = (s.insertByUrl r).1.insertAllByUrl rs := rfl
      rw [hstep, ih, mem_urls_insertByUrl, or_assoc, List.exists_mem_cons_iff]

/-- An update forgets no URL. It can add that of a bare route. -/
theorem mem_urls_updateByName (h : url ∈ s.urls) (target name : String) (f : Route → Route) :
    url ∈ (s.updateByName target name f).urls := by
  cases hi : s.positions.get? name with
  | some i => simpa [updateByName, hi] using h
  | none =>
      have hurls : (s.updateByName target name f).urls
          = (s.append (Route.bare target name)).urls := by
        simp [updateByName, hi]
      rw [hurls, mem_urls_append]
      exact Or.inl h

/-- Routes whose URLs are all known change nothing. -/
theorem insertAllByUrl_of_forall_mem {rs : List Route} (h : ∀ r ∈ rs, r.url ∈ s.urls) :
    s.insertAllByUrl rs = s := by
  induction rs with
  | nil => rfl
  | cons r rs ih =>
      have hstep : s.insertAllByUrl (r :: rs) = (s.insertByUrl r).1.insertAllByUrl rs := rfl
      rw [hstep, insertByUrl_of_mem (h r (by simp))]
      exact ih fun t ht => h t (by simp [ht])

end RouteSet

end RouteDoc
