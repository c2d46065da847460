import RouteDoc.Dump.Import
import RouteDoc.Proofs.Keyed
import RouteDoc.Proofs.RouteSet.Index

/-!
# `RouteDoc.Proofs.RouteSet.Reachable`: sets whose routes may be rewritten

Whoever asks a set for the route of a name may change that route in any
way, its URL and its name included, and the indexes do not notice. A set
that is reached in this way need not be `Indexed`: a name may lead to a
route that is now called something else. What stays true is that every
name has a position in the list and that no two names share one
(`Positioned`), because a position is given away once, when a route is
appended. So a change made under one name is never seen under another.

* `Reachable.positioned`: what stays true of every set that is reached.
* `Unrenamed.named`: if no route is renamed, the names have the right
  positions as well.
* `find?_updateByName_self`, `find?_updateByName_of_ne`,
  `find?_insertByUrl`: what each operation does to the route of a name.
* `updateByName_of_fixed`: a change that changes nothing.
-/

set_option autoImplicit false

namespace RouteDoc.RouteSet

/-- The sets that are built from the empty one by inserting routes by URL
and changing the routes of names in any way. -/
inductive Reachable : RouteSet → Prop where
  | empty : Reachable ∅
  | insertByUrl {s : RouteSet} (hs : Reachable s) (r : Route) : Reachable (s.insertByUrl r).1
  | updateByName {s : RouteSet} (hs : Reachable s) (url name : String) (f : Route → Route) :
      Reachable (s.updateByName url name f)

/-- Every name that is known has a position of its own. -/
structure Positioned (s : RouteSet) : Prop where
  lt_length : ∀ {name i}, s.positions.get? name = some i → i < s.routes.length
  injective : ∀ {name other i}, s.positions.get? name = some i →
    s.positions.get? other = some i → name = other

variable {s : RouteSet} {r : Route} {url name other : String} {f : Route → Route}

/-! ### Positions -/

/-- Appending a route gives its name the next position, unless it has one. -/
theorem get?_positions_append (s : RouteSet) (r : Route) (name : String) :
    (s.append r).positions.get? name
      = (s.positions.get? name).or (if name = r.name then some s.routes.length else none) := by
  simp only [append]
  by_cases hname : name = r.name
  · subst hname
    split
    · next hknown =>
      obtain ⟨i, hi⟩ := Option.isSome_iff_exists.1 hknown
      simp [hi]
    · next hnew =>
      have hnone : s.positions.get? r.name = none := by
        simpa [OrderedMap.contains] using hnew
      simp [hnone]
  · rw [if_neg hname, Option.or_none]
    split
    · rfl
    · exact OrderedMap.get?_insert_of_ne hname

/-- A position after an append is one from before or the new one. -/
theorem get?_positions_append_eq_some {i : Nat}
    (h : (s.append r).positions.get? name = some i) :
    s.positions.get? name = some i ∨ (name = r.name ∧ i = s.routes.length) := by
  rw [get?_positions_append] at h
  cases hold : s.positions.get? name with
  | some j =>
      rw [hold] at h
      exact Or.inl h
  | none =>
      rw [hold, Option.none_or, Option.ite_none_right_eq_some, Option.some.injEq] at h
      exact Or.inr ⟨h.1, h.2.symm⟩

/-- No name leads anywhere in the empty set. -/
theorem positioned_empty : Positioned ∅ where
  lt_length h := by cases h
  injective h := by cases h

/-- Appending a route keeps names leading to one position each: the new
position is behind all others. -/
theorem Positioned.append (h : Positioned s) (r : Route) : Positioned (s.append r) where
  lt_length {name i} hi := by
    have hlength : (s.append r).routes.length = s.routes.length + 1 := List.length_append
    rcases get?_positions_append_eq_some hi with hi | ⟨-, rfl⟩
    · have := h.lt_length hi
      omega
    · omega
  injective {name other i} hi hj := by
    rcases get?_positions_append_eq_some hi with hi | ⟨hname, hlast⟩
    · rcases get?_positions_append_eq_some hj with hj | ⟨-, hlast⟩
      · exact h.injective hi hj
      · exact absurd (h.lt_length hi) (by omega)
    · rcases get?_positions_append_eq_some hj with hj | ⟨hother, -⟩
      · exact absurd (h.lt_length hj) (by omega)
      · rw [hname, hother]

/-- Whether every name has a position of its own does not depend on what
the routes are. -/
theorem Positioned.of_same {t : RouteSet} (h : Positioned s)
    (hpositions : t.positions = s.positions)
    (hlength : t.routes.length = s.routes.length) : Positioned t where
  lt_length hi := by
    rw [hpositions] at hi
    rw [hlength]
    exact h.lt_length hi
  injective hi hj := by
    rw [hpositions] at hi hj
    exact h.injective hi hj

/-- Inserting a route keeps names leading to one position each. -/
theorem Positioned.insertByUrl (h : Positioned s) (r : Route) :
    Positioned (s.insertByUrl r).1 :=
  insertByUrl_induction h (h.append r)

/-- Inserting a list of routes does so as well. -/
theorem Positioned.insertAllByUrl (h : Positioned s) (rs : List Route) :
    Positioned (s.insertAllByUrl rs) :=
  List.foldlRecOn rs _ h fun _ ht r _ => Positioned.insertByUrl ht r

/-- So does an update, even one that renames the route: positions are given
out for the names that routes are appended under. -/
theorem Positioned.updateByName (h : Positioned s) (url name : String) (f : Route → Route) :
    Positioned (s.updateByName url name f) := by
  cases hi : s.positions.get? name with
  | some i =>
      refine h.of_same (by simp [RouteSet.updateByName, hi]) ?_
      rw [routes_updateByName_of_some hi, List.length_modify]
  | none =>
      refine (h.append (Route.bare url name)).of_same (by simp [RouteSet.updateByName, hi]) ?_
      rw [routes_updateByName_of_none hi]
      simp [RouteSet.append]

/-- In a reachable set names lead to one position each. This is what is left
of the index of names when routes may be renamed. -/
theorem Reachable.positioned (h : Reachable s) : Positioned s := by
  induction h with
  | empty => exact positioned_empty
  | insertByUrl _ r ih => exact ih.insertByUrl r
  | updateByName _ url name f ih => exact ih.updateByName url name f

/-! ### Names that stay -/

/-- The sets that are built from the empty one by inserting routes by URL
and changing the routes of names in any way that leaves them their
names. -/
inductive Unrenamed : RouteSet → Prop where
  | empty : Unrenamed ∅
  | insertByUrl {s : RouteSet} (hs : Unrenamed s) (r : Route) : Unrenamed (s.insertByUrl r).1
  | updateByName {s : RouteSet} (hs : Unrenamed s) (url name : String) {f : Route → Route}
      (hf : ∀ r, (f r).name = r.name) : Unrenamed (s.updateByName url name f)

/-- A set in which no route was renamed is reachable. -/
theorem Unrenamed.reachable (h : Unrenamed s) : Reachable s := by
  induction h with
  | empty => exact .empty
  | insertByUrl _ r ih => exact ih.insertByUrl r
  | updateByName _ url name _ ih => exact ih.updateByName url name _

/-- Where no route is renamed, the index of names agrees with the list. -/
theorem Unrenamed.named (h : Unrenamed s) : Named s := by
  induction h with
  | empty => exact indexed_empty.toNamed
  | insertByUrl _ r ih => exact ih.insertByUrl r
  | updateByName _ url name hf ih => exact ih.updateByName url name hf

/-! ### The route of a name -/

/-- A route is found under a name when it stands at the position of the name. -/
theorem find?_eq_some_iff :
    s.find? name = some r ↔ ∃ i, s.positions.get? name = some i ∧ s.routes[i]? = some r :=
  Option.bind_eq_some_iff

/-- An appended route hides none that is found under a name. -/
theorem find?_append (h : s.find? name = some r) (t : Route) :
    (s.append t).find? name = some r := by
  obtain ⟨i, hi, hr⟩ := find?_eq_some_iff.1 h
  refine find?_eq_some_iff.2 ⟨i, by rw [get?_positions_append, hi]; rfl, ?_⟩
  show (s.routes ++ [t])[i]? = some r
  rw [List.getElem?_append_left (List.getElem?_eq_some_iff.1 hr).1, hr]

/-- Neither does an inserted one. -/
theorem find?_insertByUrl (h : s.find? name = some r) (t : Route) :
    (s.insertByUrl t).1.find? name = some r :=
  insertByUrl_induction (P := fun s => s.find? name = some r) h (find?_append h t)

/-- Nor do several of them. -/
theorem find?_insertAllByUrl (h : s.find? name = some r) (rs : List Route) :
    (s.insertAllByUrl rs).find? name = some r :=
  List.foldlRecOn (motive := fun t : RouteSet => t.find? name = some r) rs _ h
    fun _ ht t _ => find?_insertByUrl ht t

/-- The positions after an update by name are those after an append, unless
the name is known. -/
theorem positions_updateByName_of_none (h : s.positions.get? name = none) (url : String)
    (f : Route → Route) :
    (s.updateByName url name f).positions = (s.append (Route.bare url name)).positions := by
  simp [RouteSet.updateByName, h]

/-- An update of a known name gives out no position. -/
theorem positions_updateByName_of_some {i : Nat} (h : s.positions.get? name = some i)
    (url : String) (f : Route → Route) :
    (s.updateByName url name f).positions = s.positions := by
  simp [RouteSet.updateByName, h]

/-- An update moves no other name. -/
theorem get?_positions_updateByName_of_ne (hne : other ≠ name) (s : RouteSet) (url : String)
    (f : Route → Route) :
    (s.updateByName url name f).positions.get? other = s.positions.get? other := by
  cases hi : s.positions.get? name with
  | some i => rw [positions_updateByName_of_some hi]
  | none =>
      rw [positions_updateByName_of_none hi, get?_positions_append]
      simp [Route.bare, hne]

/-- The route of a name after it has been changed. The index need not agree
with the list for this, since the position leads to the same route before and
after. -/
theorem Positioned.find?_updateByName_self (h : Positioned s) (url name : String)
    (f : Route → Route) :
    (s.updateByName url name f).find? name
      = some (f ((s.find? name).getD (Route.bare url name))) := by
  cases hi : s.positions.get? name with
  | some i =>
      have hlt := h.lt_length hi
      have hroute := List.getElem?_eq_getElem hlt
      have hfind : s.find? name = some s.routes[i] := find?_eq_some_iff.2 ⟨i, hi, hroute⟩
      rw [hfind, Option.getD_some]
      refine find?_eq_some_iff.2 ⟨i, by rw [positions_updateByName_of_some hi, hi], ?_⟩
      rw [routes_updateByName_of_some hi, List.getElem?_modify_eq, hroute]
      rfl
  | none =>
      have hfind : s.find? name = none := by rw [RouteSet.find?, hi, Option.bind_none]
      rw [hfind, Option.getD_none]
      refine find?_eq_some_iff.2 ⟨s.routes.length, ?_, ?_⟩
      · rw [positions_updateByName_of_none hi, get?_positions_append, hi, Option.none_or]
        exact if_pos rfl
      · rw [routes_updateByName_of_none hi]
        simp

/-- The route of another name is not touched: it has another position. -/
theorem Positioned.find?_updateByName_of_ne (h : Positioned s) (hne : other ≠ name)
    (url : String) (f : Route → Route) :
    (s.updateByName url name f).find? other = s.find? other := by
  rw [RouteSet.find?, RouteSet.find?, get?_positions_updateByName_of_ne hne]
  cases hj : s.positions.get? other with
  | none => rfl
  | some j =>
      cases hi : s.positions.get? name with
      | some i =>
          have hij : i ≠ j := by
            rintro rfl
            exact hne (h.injective hj hi)
          rw [Option.bind_some, Option.bind_some, routes_updateByName_of_some hi]
          exact List.getElem?_modify_ne f _ hij
      | none =>
          rw [Option.bind_some, Option.bind_some, routes_updateByName_of_none hi]
          exact List.getElem?_append_left (h.lt_length hj)

/-- A change that leaves the route of a name as it is leaves the whole set
as it is. -/
theorem updateByName_of_fixed (hr : s.find? name = some r) (hfixed : f r = r) (url : String) :
    s.updateByName url name f = s := by
  obtain ⟨i, hi, hroute⟩ := find?_eq_some_iff.1 hr
  have hmodify : s.routes.modify i f = s.routes := by
    refine List.ext_getElem? fun j => ?_
    rw [List.getElem?_modify]
    split
    · next hij =>
      subst hij
      rw [hroute, Option.map_eq_map, Option.map_some, hfixed]
    · simp
  simp [RouteSet.updateByName, hi, hmodify]

end RouteDoc.RouteSet
