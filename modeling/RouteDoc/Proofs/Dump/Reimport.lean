import RouteDoc.Proofs.Dump.Import
import RouteDoc.Proofs.Dump.Reapply
import RouteDoc.Proofs.RouteSet.Reachable

/-!
# `RouteDoc.Proofs.Dump.Reimport`: a dump that is imported twice

Once an entry has been imported, the route of its name is one to which
it has been applied, so that it has nothing to change any more: the entry
is `Settled`. It stays so while routes are inserted, which hides no route
that a name leads to, and while entries of other names are imported. The
keys of a dump are distinct, so after a whole dump all its entries are
settled, and a second import changes nothing.

* `value_importEntries`: an import is a fold over the entries that can be
  read.
* `settled_importEntries`: after an import all entries are settled.
* `importEntries_of_settled`: settled entries change nothing.
-/

set_option autoImplicit false

namespace RouteDoc.Dump

variable {s : RouteSet} {e : Entry} {es : List Entry} {entries : List (String × Json)}

/-- The set after one entry that can be read. -/
def Entry.update (s : RouteSet) (e : Entry) : RouteSet := s.updateByName e.url e.name e.apply

/-- Importing a dump is updating with its usable entries, one after the other. -/
theorem value_importEntries (s : RouteSet) (entries : List (String × Json)) :
    (importEntries s entries).value = (usable entries).foldl Entry.update s := by
  induction entries generalizing s with
  | nil => rfl
  | cons entry entries ih =>
      obtain ⟨name, description⟩ := entry
      rw [importEntries_cons, ih, value_importEntry]
      cases hread : (Entry.read name description).value with
      | none => simp [usable, hread]
      | some e => simp [usable, hread, Entry.update]

/-- What updates of routes by name keep, an import keeps. The updates may be
assumed to change neither the URL nor the name of a route. -/
theorem importEntries_induction {P : RouteSet → Prop} (hs : P s)
    (h : ∀ t url name f, Route.KeepsIdentity f → P t → P (t.updateByName url name f))
    (entries : List (String × Json)) : P (importEntries s entries).value := by
  rw [value_importEntries]
  exact List.foldlRecOn _ _ hs fun t ht e _ =>
    h t e.url e.name e.apply (keepsIdentity_apply e) ht

/-- An import keeps names leading to one position each. -/
theorem positioned_importEntries (h : s.Positioned) (entries : List (String × Json)) :
    (importEntries s entries).value.Positioned :=
  importEntries_induction h (fun _ url name f _ ht => ht.updateByName url name f) entries

/-- A dump renames no route, so a set without renamed routes stays one. -/
theorem unrenamed_importEntries (h : s.Unrenamed) (entries : List (String × Json)) :
    (importEntries s entries).value.Unrenamed :=
  importEntries_induction h (fun _ url name _ hf ht => ht.updateByName url name hf.name) entries

/-! ### Settled entries -/

/-- The entry has been applied to the route of its name. -/
def Settled (s : RouteSet) (e : Entry) : Prop :=
  ∃ r, s.find? e.name = some r ∧ e.apply r = r

/-- An entry is settled as soon as it has been imported: it is found by its
name, and it was applied to the route there. -/
theorem settled_update (h : s.Positioned) (e : Entry) : Settled (e.update s) e :=
  ⟨_, h.find?_updateByName_self e.url e.name e.apply, apply_idem e _⟩

/-- Importing a settled entry changes nothing. -/
theorem Settled.update_eq (h : Settled s e) : e.update s = s := by
  obtain ⟨r, hr, hfixed⟩ := h
  exact RouteSet.updateByName_of_fixed hr hfixed e.url

/-- Another entry does not unsettle this one: it changes the route that is
found under its own name, and two names do not lead to one position. -/
theorem Settled.update_of_ne (h : Settled s e) (hs : s.Positioned) {other : Entry}
    (hne : e.name ≠ other.name) : Settled (other.update s) e := by
  obtain ⟨r, hr, hfixed⟩ := h
  exact ⟨r, (hs.find?_updateByName_of_ne hne other.url other.apply).trans hr, hfixed⟩

/-- Inserting routes does not unsettle an entry: the routes go to the end, or
are left out, and names that are known keep leading where they led. -/
theorem Settled.insertAllByUrl (h : Settled s e) (rs : List Route) :
    Settled (s.insertAllByUrl rs) e := by
  obtain ⟨r, hr, hfixed⟩ := h
  exact ⟨r, RouteSet.find?_insertAllByUrl hr rs, hfixed⟩

/-- An entry stays settled through entries of other names. -/
theorem Settled.foldl_update (h : Settled s e) (hs : s.Positioned)
    (hne : ∀ other ∈ es, e.name ≠ other.name) : Settled (es.foldl Entry.update s) e := by
  induction es generalizing s with
  | nil => exact h
  | cons other es ih =>
      exact ih (h.update_of_ne hs (hne other (by simp)))
        (hs.updateByName other.url other.name other.apply)
        fun other' hother' => hne other' (by simp [hother'])

/-- When names are distinct, each entry is settled after all of them: it is
settled by its own turn, and none of the later entries has its name. -/
theorem settled_foldl_update (hs : s.Positioned) (hnodup : (es.map Entry.name).Nodup)
    (he : e ∈ es) : Settled (es.foldl Entry.update s) e := by
  induction es generalizing s with
  | nil => simp at he
  | cons first es ih =>
      obtain ⟨hnot, hnodup⟩ := List.nodup_cons.1 hnodup
      have hnext : (first.update s).Positioned :=
        hs.updateByName first.url first.name first.apply
      rw [List.foldl_cons]
      rcases List.mem_cons.1 he with rfl | he
      · -- No entry behind `e` has its name.
        refine (settled_update hs e).foldl_update hnext fun other hother heq => ?_
        exact hnot (heq ▸ List.mem_map_of_mem hother)
      · exact ih hnext hnodup he

/-- When all entries are settled, importing them changes nothing. -/
theorem foldl_update_of_settled (h : ∀ e ∈ es, Settled s e) : es.foldl Entry.update s = s := by
  induction es with
  | nil => rfl
  | cons e es ih =>
      rw [List.foldl_cons, (h e (by simp)).update_eq]
      exact ih fun other hother => h other (by simp [hother])

/-! ### Whole dumps -/

/-- After a dump with distinct keys, all its entries are settled. -/
theorem settled_importEntries (hs : s.Positioned) (hnodup : (entries.map Prod.fst).Nodup)
    (he : e ∈ usable entries) : Settled (importEntries s entries).value e := by
  rw [value_importEntries]
  exact settled_foldl_update hs ((names_usable_sublist entries).nodup hnodup) he

/-- A dump whose usable entries are all settled changes nothing. -/
theorem importEntries_of_settled (h : ∀ e ∈ usable entries, Settled s e) :
    (importEntries s entries).value = s := by
  rw [value_importEntries]
  exact foldl_update_of_settled h

/-- Importing a dump again changes nothing, whatever has been inserted by
URL since. -/
theorem importEntries_importEntries (hs : s.Positioned) (hnodup : (entries.map Prod.fst).Nodup)
    (rs : List Route) :
    (importEntries ((importEntries s entries).value.insertAllByUrl rs) entries).value
      = (importEntries s entries).value.insertAllByUrl rs :=
  importEntries_of_settled fun _ he =>
    (settled_importEntries hs hnodup he).insertAllByUrl rs

end RouteDoc.Dump
