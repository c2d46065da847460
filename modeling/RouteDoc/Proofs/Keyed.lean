import Mathlib.Data.List.Induction
import Mathlib.Data.List.Nodup
import RouteDoc.OrderedMap

/-!
# `RouteDoc.Proofs.Keyed`: many members put into a keyed list

* `nodup_keys_foldl_put`: the keys stay distinct.
* `foldl_put_eq_append`: members with new and distinct keys go to the
  end in their order.
* `find?_foldl_put`: the last member with a key is found under it.
* `foldl_put_idem`: putting the same members again changes nothing.
* `nodup_eraseDups`: a list without its repetitions has none.
* `foldl_put_nil`: of members that are put one by one, the last of each
  key stays, where the first one went.
* `OrderedMap.ofList_entries`: a map is built again from its pairs.
* `OrderedMap.mem_entries_iff`: the pairs of a map are those it finds.
-/

set_option autoImplicit false

namespace RouteDoc.Keyed

variable {κ α : Type} [DecidableEq κ] {key : α → κ} {xs : List α}

/-- A member with a new key goes to the end. The search for its key comes past
all the others. -/
theorem put_eq_append {a : α} (h : key a ∉ xs.map key) :
    put key a xs = xs ++ [a] := by
  induction xs with
  | nil => rfl
  | cons x xs ih =>
      simp only [List.map_cons, List.mem_cons, not_or] at h
      simp [put, Ne.symm h.1, ih h.2]

/-- Keys stay distinct however many members are put, because each of them
stays so. -/
theorem nodup_keys_foldl_put (as : List α) (h : (xs.map key).Nodup) :
    ((as.foldl (fun xs a => put key a xs) xs).map key).Nodup := by
  induction as generalizing xs with
  | nil => exact h
  | cons a as ih => exact ih (nodup_keys_put h)

/-- Members with new and distinct keys go to the end in their order. Each of
them is new also among those that went there before it. -/
theorem foldl_put_eq_append (as xs : List α) (h : ((xs ++ as).map key).Nodup) :
    as.foldl (fun xs a => put key a xs) xs = xs ++ as := by
  induction as generalizing xs with
  | nil => simp
  | cons a as ih =>
      have hnew : key a ∉ xs.map key := by
        rw [List.map_append, List.nodup_append] at h
        exact fun hmem => h.2.2 _ hmem (key a) (by simp) rfl
      rw [List.foldl_cons, put_eq_append hnew, ih _ (by simpa using h)]
      simp

/-- Of many members that are put, the last one with a key is found. What was
under the key before is found only if none of them has it. -/
theorem find?_foldl_put (as xs : List α) (k : κ) :
    find? key k (as.foldl (fun xs a => put key a xs) xs)
      = (find? key k as.reverse).or (find? key k xs) := by
  induction as generalizing xs with
  | nil => rfl
  | cons a as ih =>
      have hreverse : find? key k (a :: as).reverse
          = (find? key k as.reverse).or (find? key k [a]) := by
        simp [find?, List.find?_append]
      -- Members behind `a` come first; `a` itself hides what was there.
      rw [List.foldl_cons, ih, hreverse, Option.or_assoc]
      congr 1
      by_cases hk : key a = k
      · subst hk
        rw [find?_put_self]
        simp [find?]
      · rw [find?_put_of_ne (Ne.symm hk)]
        simp [find?, hk]

/-- Of two members with one key that are put in turn, only the second
leaves a trace. -/
theorem put_put_of_eq {a b : α} (h : key a = key b) :
    put key a (put key b xs) = put key a xs := by
  induction xs with
  | nil => simp [put, h]
  | cons x xs ih =>
      by_cases hx : key x = key b
      · simp [put, hx, h]
      · simp [put, hx, h, ih]

/-- Members with different keys can be put in either order if one of the
keys is there: only new keys look for a place. -/
theorem put_put_of_ne {a b : α} (h : key a ≠ key b) (ha : key a ∈ xs.map key) :
    put key a (put key b xs) = put key b (put key a xs) := by
  induction xs with
  | nil => simp at ha
  | cons x xs ih =>
      by_cases hxa : key x = key a
      · simp [put, hxa, h]
      · have hxs : key a ∈ xs.map key := by
          rw [List.map_cons, List.mem_cons] at ha
          exact ha.resolve_left (Ne.symm hxa)
        by_cases hxb : key x = key b
        · simp [put, hxb, Ne.symm h]
        · simp [put, hxa, hxb, ih hxs]

/-- A member whose key is in the first part of a list goes there, to its
place, and leaves the second part alone. -/
theorem put_append {a : α} (h : key a ∈ xs.map key) (ys : List α) :
    put key a (xs ++ ys) = put key a xs ++ ys := by
  induction xs with
  | nil => simp at h
  | cons x xs ih =>
      by_cases hx : key x = key a
      · simp [put, hx]
      · have hxs : key a ∈ xs.map key := by
          rw [List.map_cons, List.mem_cons] at h
          exact h.resolve_left (Ne.symm hx)
        simp [put, hx, ih hxs]

/-- Many members whose keys are all in the first part of a list go there.
Putting one of them takes no key away for those that follow. -/
theorem foldl_put_append {as : List α} (h : ∀ a ∈ as, key a ∈ xs.map key) (ys : List α) :
    as.foldl (fun xs a => put key a xs) (xs ++ ys)
      = as.foldl (fun xs a => put key a xs) xs ++ ys := by
  induction as generalizing xs with
  | nil => rfl
  | cons a as ih =>
      rw [List.foldl_cons, List.foldl_cons, put_append (h a (by simp))]
      exact ih fun b hb => mem_keys_put.2 (Or.inl (h b (by simp [hb])))

/-- The keys after many members are put are those from before and those of the
members. Putting never takes a key away. -/
theorem mem_keys_foldl_put {as : List α} {k : κ} :
    k ∈ (as.foldl (fun xs a => put key a xs) xs).map key ↔ k ∈ xs.map key ∨ k ∈ as.map key := by
  induction as generalizing xs with
  | nil => simp
  | cons a as ih =>
      rw [List.foldl_cons, ih, mem_keys_put, List.map_cons, List.mem_cons, or_assoc]

/-- A member that will be put again under its key need not be put
before. -/
theorem foldl_put_put {as : List α} {a : α} (ha : key a ∈ as.map key)
    (hxs : key a ∈ xs.map key) :
    as.foldl (fun xs a => put key a xs) (put key a xs)
      = as.foldl (fun xs a => put key a xs) xs := by
  induction as generalizing xs with
  | nil => simp at ha
  | cons b as ih =>
      rw [List.foldl_cons, List.foldl_cons]
      by_cases h : key b = key a
      · rw [put_put_of_eq h]
      · have has : key a ∈ as.map key := by
          rw [List.map_cons, List.mem_cons] at ha
          exact ha.resolve_left (Ne.symm h)
        rw [← put_put_of_ne (Ne.symm h) hxs]
        exact ih has (mem_keys_put.2 (Or.inl hxs))

/-- Putting the same members a second time changes nothing, even if they
overwrite each other on the way. -/
theorem foldl_put_idem (as xs : List α) :
    as.foldl (fun xs a => put key a xs) (as.foldl (fun xs a => put key a xs) xs)
      = as.foldl (fun xs a => put key a xs) xs := by
  induction as generalizing xs with
  | nil => rfl
  | cons a as ih =>
      rw [List.foldl_cons, List.foldl_cons]
      have hmem : key a ∈ (as.foldl (fun xs a => put key a xs) (put key a xs)).map key :=
        mem_keys_foldl_put.2 (Or.inl (mem_keys_put.2 (Or.inr rfl)))
      by_cases ha : key a ∈ as.map key
      · -- A later member takes the place of `a` anyway.
        rw [foldl_put_put ha hmem, ih]
      · -- `a` is still there from the first time.
        have hlater : find? key (key a) as.reverse = none := by
          rw [find?_eq_none_iff, List.map_reverse, List.mem_reverse]
          exact ha
        have hfind : find? key (key a) (as.foldl (fun xs a => put key a xs) (put key a xs))
            = some a := by
          rw [find?_foldl_put, hlater, find?_put_self]
          rfl
        rw [put_of_find? hfind, ih]

/-- Where the keys are distinct, every member is found under its key, and
nothing else is. -/
theorem find?_eq_some_iff (h : (xs.map key).Nodup) {k : κ} {a : α} :
    find? key k xs = some a ↔ a ∈ xs ∧ key a = k := by
  constructor
  · intro hfind
    exact ⟨List.mem_of_find?_eq_some hfind, key_of_find? hfind⟩
  · rintro ⟨hmem, rfl⟩
    induction xs with
    | nil => cases hmem
    | cons x xs ih =>
        obtain ⟨hnot, hnodup⟩ := List.nodup_cons.1 h
        rcases List.mem_cons.1 hmem with rfl | hmem
        · simp [find?]
        · have hne : key x ≠ key a := fun hkey => hnot (hkey ▸ List.mem_map_of_mem hmem)
          have := ih hnodup hmem
          simpa [find?, hne] using this

/-- Where the keys are distinct, it does not matter in which order one
looks. -/
theorem find?_perm (h : (xs.map key).Nodup) {ys : List α} (hperm : xs.Perm ys) (k : κ) :
    find? key k xs = find? key k ys := by
  have hys : (ys.map key).Nodup := (hperm.map key).nodup_iff.1 h
  refine Option.ext fun a => ?_
  rw [find?_eq_some_iff h, find?_eq_some_iff hys, hperm.mem_iff]

/-- Where the keys are distinct, it makes no difference from which end a key
is looked for. -/
theorem find?_reverse (h : (xs.map key).Nodup) (k : κ) :
    find? key k xs.reverse = find? key k xs :=
  (find?_perm h (List.reverse_perm xs).symm k).symm

/-! ### Without repetitions -/

/-- One more element is dropped if it came before, and else goes to the end.
So the list without repeats can be followed from the front. -/
theorem eraseDups_append_singleton (ks : List κ) (k : κ) :
    (ks ++ [k]).eraseDups = if k ∈ ks then ks.eraseDups else ks.eraseDups ++ [k] := by
  rw [List.eraseDups_append]
  split
  · next h =>
    have hold : [k].removeAll ks = [] := by simpa [List.removeAll] using h
    rw [hold, List.eraseDups_nil, List.append_nil]
  · next h =>
    have hnew : [k].removeAll ks = [k] := by simpa [List.removeAll] using h
    rw [hnew, List.eraseDups_cons]
    rfl

/-- Keys that are appended unless they are there come behind what was
there, once each. -/
theorem foldl_append_new (ks new : List κ) :
    new.foldl (fun ks k => if k ∈ ks then ks else ks ++ [k]) ks
      = ks ++ new.eraseDups.filter (· ∉ ks) := by
  induction new using List.reverseRecOn with
  | nil => exact (List.append_nil ks).symm
  | append_singleton new k ih =>
      have hmem : k ∈ ks ++ new.eraseDups.filter (· ∉ ks) ↔ k ∈ ks ∨ k ∈ new := by
        simp only [List.mem_append, List.mem_filter, List.mem_eraseDups, decide_eq_true_eq]
        tauto
      rw [List.foldl_append, List.foldl_cons, List.foldl_nil, ih, eraseDups_append_singleton]
      by_cases hold : k ∈ ks
      · rw [if_pos (hmem.2 (Or.inl hold))]
        split
        · rfl
        · simp [List.filter_append, hold]
      · by_cases hnew : k ∈ new
        · rw [if_pos (hmem.2 (Or.inr hnew)), if_pos hnew]
        · rw [if_neg (by rw [hmem]; tauto), if_neg hnew, List.filter_append, List.append_assoc]
          simp [hold]

/-- The keys after many members have been put: the new ones come behind
those that were there, without repetitions. -/
theorem keys_foldl_put (as xs : List α) :
    (as.foldl (fun xs a => put key a xs) xs).map key
      = xs.map key ++ (as.map key).eraseDups.filter (· ∉ xs.map key) := by
  rw [← foldl_append_new, List.foldl_map]
  exact (List.foldl_hom (List.map key) fun xs a => keys_put.symm).symm

/-- The keys of members that are put one by one are their keys without
repetitions. -/
theorem keys_foldl_put_nil (as : List α) :
    (as.foldl (fun xs a => put key a xs) []).map key = (as.map key).eraseDups := by
  rw [keys_foldl_put]
  simp

/-- A list without its repeats has none. By induction from the end, a last
element is kept only if it is new. -/
theorem nodup_eraseDups (ks : List κ) : ks.eraseDups.Nodup := by
  induction ks using List.reverseRecOn with
  | nil => exact List.nodup_nil
  | append_singleton ks k ih =>
      rw [eraseDups_append_singleton]
      split
      · exact ih
      · next h =>
        refine List.nodup_append.2 ⟨ih, List.nodup_singleton k, fun l hl l' hl' heq => h ?_⟩
        rw [List.mem_singleton.1 hl'] at heq
        exact List.mem_eraseDups.1 (heq ▸ hl)

/-- A list without repeats is left as it is, since each of its elements is new
when it comes. -/
theorem eraseDups_eq_self {ks : List κ} (h : ks.Nodup) : ks.eraseDups = ks := by
  induction ks using List.reverseRecOn with
  | nil => rfl
  | append_singleton ks k ih =>
      obtain ⟨hks, -, hnew⟩ := List.nodup_append.1 h
      rw [eraseDups_append_singleton, if_neg fun hk => hnew k hk k (by simp) rfl, ih hks]

/-! ### The last of each key -/

/-- The last member of each key, in the order in which the keys first
come. -/
def latest (key : α → κ) (as : List α) : List α :=
  (as.map key).eraseDups.filterMap fun k => (as.filter fun a => key a = k).getLast?

/-- What is found first from the end is the last of all that have the key. -/
theorem find?_reverse_eq_getLast? (as : List α) (k : κ) :
    find? key k as.reverse = (as.filter fun a => key a = k).getLast? := by
  rw [find?, ← List.head?_filter, List.filter_reverse, List.head?_reverse]

/-- Where the keys are distinct, the members are those that the keys
find. -/
theorem filterMap_find?_keys (h : (xs.map key).Nodup) :
    (xs.map key).filterMap (fun k => find? key k xs) = xs := by
  have hself : ∀ x ∈ xs, find? key (key x) xs = some x :=
    fun x hx => (find?_eq_some_iff h).2 ⟨hx, rfl⟩
  rw [List.filterMap_map]
  exact (List.filterMap_congr hself).trans List.filterMap_some

/-- Members that are put one by one: the last of each key stays, in the
place that the first one took. -/
theorem foldl_put_nil (as : List α) :
    as.foldl (fun xs a => put key a xs) [] = latest key as := by
  have hnodup : ((as.foldl (fun xs a => put key a xs) []).map key).Nodup :=
    nodup_keys_foldl_put as List.nodup_nil
  rw [← filterMap_find?_keys hnodup, keys_foldl_put_nil, latest]
  refine List.filterMap_congr fun k _ => ?_
  rw [find?_foldl_put, find?_reverse_eq_getLast?]
  exact Option.or_none

end RouteDoc.Keyed

/-! ### Maps -/

namespace RouteDoc.OrderedMap

variable {κ α : Type} [DecidableEq κ] {m : OrderedMap κ α} {k l : κ} {a : α}

/-- A map is built again from its pairs. They have distinct keys, so they go
to the end one after the other. -/
theorem ofList_entries (m : OrderedMap κ α) : ofList m.entries = m := by
  have hentries : ∀ (pairs : List (κ × α)) (n : OrderedMap κ α),
      (pairs.foldl (fun n pair => n.insert pair.1 pair.2) n).entries
        = pairs.foldl (fun xs pair => Keyed.put Prod.fst pair xs) n.entries := by
    intro pairs
    induction pairs with
    | nil => exact fun n => rfl
    | cons pair pairs ih => exact fun n => ih _
  apply ext_entries
  exact (hentries m.entries empty).trans (Keyed.foldl_put_eq_append m.entries [] m.distinct)

/-- An update changes the value of one key, which starts from `fresh` if there
was none, and leaves the values of all other keys alone. -/
theorem get?_update (fresh : α) (f : α → α) :
    (m.update k fresh f).get? l
      = if l = k then some (f ((m.get? k).getD fresh)) else m.get? l := by
  unfold update
  split
  · next h =>
    subst h
    exact get?_insert_self
  · next h => exact get?_insert_of_ne h

/-- A pair is there exactly when its value is found under its key, because the
keys of a map are distinct. -/
theorem mem_entries_iff : (k, a) ∈ m.entries ↔ m.get? k = some a := by
  rw [get?, Option.map_eq_some_iff]
  constructor
  · intro hmem
    exact ⟨(k, a), (Keyed.find?_eq_some_iff m.distinct).2 ⟨hmem, rfl⟩, rfl⟩
  · rintro ⟨pair, hfind, rfl⟩
    obtain ⟨hmem, rfl⟩ := (Keyed.find?_eq_some_iff m.distinct).1 hfind
    exact hmem

end RouteDoc.OrderedMap
