import RouteDoc.Files.Tree
import RouteDoc.Proofs.Files.Path
import RouteDoc.Proofs.Keyed

/-!
# `RouteDoc.Proofs.Files.Tree`: what stands at the places of a tree

A tree is changed by putting a node at a place. What stands at other
places stays, and what lies on the way there stays what it is.

* `WellNamed.child?_eq_some_iff`: an entry is found under its name.
* `at?_setAt_self`: a node is found where it was put.
* `leaf?_setAt_of_not_prefix`: and nothing else is changed, apart from
  the directories on the way.
-/

set_option autoImplicit false

namespace RouteDoc.Files.Node

variable {node new child found : Node} {name : Name} {place p q : Place} {rights : Rights}
  {entries : List (Name × Node)}

/-! ### Places -/

/-- The first name of a place leads to a child, and the others go on from
there. -/
theorem at?_cons (name : Name) (place : Place) (node : Node) :
    node.at? (name :: place) = (node.child? name).bind (at? place) := rfl

/-- What lies below a place is seen from there. -/
theorem at?_append (node : Node) (p q : Place) : node.at? (p ++ q) = (node.at? p).bind (at? q) := by
  induction p generalizing node with
  | nil => rfl
  | cons name p ih =>
      rw [List.cons_append, at?_cons, at?_cons, Option.bind_assoc]
      congr 1
      funext child
      exact ih child

/-- The last name of a place is one of the directory before it. -/
theorem at?_concat (node : Node) (place : Place) (name : Name) :
    node.at? (place ++ [name]) = (node.at? place).bind (child? name) := by
  rw [at?_append]
  cases node.at? place with
  | none => rfl
  | some found =>
      rw [Option.bind_some, Option.bind_some, at?_cons]
      cases found.child? name <;> rfl

/-- A node that is a directory has rights and entries. -/
theorem exists_eq_directory (h : node.isDirectory = true) :
    ∃ rights entries, node = .directory rights entries := by
  cases node with
  | directory rights entries => exact ⟨rights, entries, rfl⟩
  | file rights content => cases h
  | link target => cases h
  | special rights input => cases h

/-- Only a directory has other nodes in it. -/
theorem exists_directory_of_child? (h : node.child? name = some child) :
    ∃ rights entries, node = .directory rights entries := by
  cases node with
  | directory rights entries => exact ⟨rights, entries, rfl⟩
  | file rights content => cases h
  | link target => cases h
  | special rights input => cases h

/-- What lies below the first name on the way is found in a directory
under that name. -/
theorem exists_of_at?_cons (h : node.at? (name :: place) = some found) :
    ∃ rights entries child, node = .directory rights entries ∧
      node.child? name = some child ∧ child.at? place = some found := by
  rw [at?_cons, Option.bind_eq_some_iff] at h
  obtain ⟨child, hchild, hplace⟩ := h
  obtain ⟨rights, entries, rfl⟩ := exists_directory_of_child? hchild
  exact ⟨rights, entries, child, rfl, hchild, hplace⟩

/-- In every directory of the tree the names are different, and are such
as entries can have. -/
def WellNamed (node : Node) : Prop :=
  ∀ place rights entries, node.at? place = some (.directory rights entries) →
    (entries.map Prod.fst).Nodup ∧ ∀ entry ∈ entries, Path.IsName entry.1

/-- The names of the entries of a directory are distinct. -/
theorem WellNamed.nodup (h : WellNamed (.directory rights entries)) :
    (entries.map Prod.fst).Nodup :=
  (h [] rights entries rfl).1

/-- An entry is found under its name, since no other entry has it. -/
theorem WellNamed.child?_eq_some_iff (h : WellNamed (.directory rights entries)) :
    (directory rights entries).child? name = some child ↔ (name, child) ∈ entries := by
  rw [child?, Option.map_eq_some_iff]
  constructor
  · rintro ⟨entry, hfind, rfl⟩
    obtain ⟨hmem, rfl⟩ := (Keyed.find?_eq_some_iff h.nodup).1 hfind
    exact hmem
  · intro hmem
    exact ⟨(name, child), (Keyed.find?_eq_some_iff h.nodup).2 ⟨hmem, rfl⟩, rfl⟩

/-- What lies in a well-named directory is well named. -/
theorem WellNamed.below (h : WellNamed (.directory rights entries))
    (hchild : (name, child) ∈ entries) : child.WellNamed := by
  intro place rights' below hplace
  refine h (name :: place) rights' below ?_
  rw [at?_cons, h.child?_eq_some_iff.2 hchild, Option.bind_some, hplace]

/-- There are no symbolic links in the tree. -/
def LinkFree (node : Node) : Prop := ∀ place target, node.at? place ≠ some (.link target)

/-- What lies in a directory without links is free of links. -/
theorem LinkFree.below (h : node.LinkFree) (hchild : node.child? name = some child) :
    child.LinkFree := by
  intro place target hplace
  refine h (name :: place) target ?_
  rw [at?_cons, hchild, Option.bind_some, hplace]

/-- A node without what it holds: the kind that it is of, and the rights
to it. -/
def shell : Node → Node
  | file rights _ => file rights .empty
  | directory rights _ => directory rights []
  | link target => link target
  | special rights input => special rights input

/-- A node with the shell of a directory is a directory with the same rights.
Its entries can be others. -/
theorem exists_directory_of_shell (h : new.shell = (directory rights entries).shell) :
    ∃ entries', new = .directory rights entries' := by
  cases new <;> cases h
  exact ⟨_, rfl⟩

/-- A node with the shell of a link is that link: the target is part of the
shell, because look-ups go through it. -/
theorem eq_link_of_shell {target : Path} (h : new.shell = (link target).shell) :
    new = .link target := by
  cases new <;> cases h
  rfl

/-- A node that is no directory. -/
def leaf? (node : Node) : Option Node := if node.isDirectory then none else some node

/-- A node that is no directory is its own leaf, and a directory has none. -/
theorem leaf?_eq_some_iff : node.leaf? = some new ↔ node = new ∧ new.isDirectory = false := by
  unfold leaf?
  split
  · next h =>
    refine ⟨nofun, ?_⟩
    rintro ⟨rfl, hnot⟩
    exact absurd h (by simp [hnot])
  · next h =>
    rw [Option.some.injEq]
    refine ⟨?_, And.left⟩
    rintro rfl
    exact ⟨rfl, by simpa using h⟩

/-! ### Putting a node at a place -/

/-- Putting a child under a name leaves the other names alone. -/
theorem child?_setChild_of_ne {other : Name} (h : other ≠ name) (node child : Node) :
    (node.setChild name child).child? other = node.child? other := by
  cases node with
  | directory rights entries =>
      have hfind : Keyed.find? Prod.fst other (Keyed.put Prod.fst (name, child) entries)
          = Keyed.find? Prod.fst other entries := Keyed.find?_put_of_ne h
      simp only [setChild, child?, hfind]
  | file rights content => rfl
  | link target => rfl
  | special rights input => rfl

/-- Putting a node below a child changes the child of this name; if there is
none, an empty directory is made for it. -/
theorem child?_setAt_self (rights : Rights) (entries : List (Name × Node)) (name : Name)
    (place : Place) (new : Node) :
    ((directory rights entries).setAt (name :: place) new).child? name
      = some ((((directory rights entries).child? name).getD emptyDirectory).setAt place new) :=
  child?_setChild

/-- Putting a node below a child leaves the other children alone. -/
theorem child?_setAt_of_ne {other : Name} (h : other ≠ name) (node : Node) (place : Place)
    (new : Node) : (node.setAt (name :: place) new).child? other = node.child? other :=
  child?_setChild_of_ne h _ _

/-- What is no directory is not changed below itself. -/
theorem setAt_cons_of_not_directory (h : node.isDirectory = false) (name : Name) (place : Place)
    (new : Node) : node.setAt (name :: place) new = node := by
  cases node <;> first | rfl | cases h

/-- Below a directory that is there nothing is in the way, so what is put
there is found there. -/
theorem at?_setAt_self (h : node.at? place = some (directory rights entries)) (name : Name)
    (new : Node) : (node.setAt (place ++ [name]) new).at? (place ++ [name]) = some new := by
  induction place generalizing node with
  | nil =>
      obtain rfl := Option.some.inj h
      rw [List.nil_append, at?_cons, child?_setAt_self]
      rfl
  | cons first place ih =>
      obtain ⟨rights', entries', child, rfl, hchild, hplace⟩ := exists_of_at?_cons h
      rw [List.cons_append, at?_cons, child?_setAt_self, hchild]
      exact ih hplace

/-- What does not lie at or below a place is not changed when a node is
put there. Directories are made on the way at most, and hold nothing
else. -/
theorem leaf?_setAt_of_not_prefix (h : ¬place <+: q) (node new : Node) :
    ((node.setAt place new).at? q).bind leaf? = (node.at? q).bind leaf? := by
  -- By induction on the place: a name that `q` does not share with it leads elsewhere.
  induction place generalizing node q with
  | nil => exact absurd List.nil_prefix h
  | cons name place ih =>
      by_cases hdirectory : node.isDirectory = true
      · obtain ⟨rights, entries, rfl⟩ := exists_eq_directory hdirectory
        cases q with
        | nil => rfl
        | cons other q =>
            by_cases hname : other = name
            · subst hname
              have hbelow : ¬place <+: q := fun hprefix =>
                h (List.cons_prefix_cons.2 ⟨rfl, hprefix⟩)
              rw [at?_cons, at?_cons, child?_setAt_self, Option.bind_some, ih hbelow]
              cases (directory rights entries).child? other with
              | some child => rfl
              | none =>
                  -- Nothing lies below a directory that is made on the way.
                  cases q <;> rfl
            · rw [at?_cons, at?_cons, child?_setAt_of_ne hname]
      · rw [setAt_cons_of_not_directory (by simpa using hdirectory)]

/-- What is there stays what it is, if at the place itself there is at
most something of the new kind that holds no other nodes. -/
theorem shell_setAt
    (h : ∀ found, node.at? place = some found →
      found.isDirectory = false ∧ new.shell = found.shell)
    (hq : node.at? q = some found) :
    ∃ found', (node.setAt place new).at? q = some found' ∧ found'.shell = found.shell := by
  induction place generalizing node q with
  | nil =>
      obtain ⟨hnode, hnew⟩ := h node rfl
      cases q with
      | nil =>
          obtain rfl := Option.some.inj hq
          exact ⟨new, rfl, hnew⟩
      | cons other q =>
          obtain ⟨rights, entries, -, rfl, -⟩ := exists_of_at?_cons hq
          cases hnode
  | cons name place ih =>
      cases q with
      | nil =>
          obtain rfl := Option.some.inj hq
          refine ⟨_, rfl, ?_⟩
          cases node <;> rfl
      | cons other q =>
          obtain ⟨rights, entries, child, rfl, hchild, hbelow⟩ := exists_of_at?_cons hq
          by_cases hname : other = name
          · subst hname
            rw [at?_cons, child?_setAt_self, hchild]
            refine ih (fun found hfound => h found ?_) hbelow
            rw [at?_cons, hchild]
            exact hfound
          · rw [at?_cons, child?_setAt_of_ne hname, hchild]
            exact ⟨found, hbelow, rfl⟩

end RouteDoc.Files.Node
