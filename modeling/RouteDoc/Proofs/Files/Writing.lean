import RouteDoc.Proofs.Files.Walk

/-!
# `RouteDoc.Proofs.Files.Writing`: what writing leaves alone

Making directories and writing files change a disk in place. Neither
takes anything away: a disk only ever grows (`Disk.Grows`), so that a path
that led somewhere still leads there. Making directories touches nothing
else, and writing touches the place to which the path leads.

* `makeDirectories_spares`: directories are made beside everything else.
* `writeFile_writes`: bytes are written where their path leads.
* `endsInLink_of_locate_eq`: two paths that differ in their last names
  lead to one place only through a link.
-/

set_option autoImplicit false

namespace RouteDoc.Files

open Node

namespace Disk

variable {d d' d'' : Disk} {place q : Place} {path lead : Path} {last name : Name}
  {rights : Rights} {entries : List (Name × Node)} {node new : Node} {content : ByteArray}
  {here : Position}

/-! ### What is not a directory -/

/-- What is at a place, unless it is a directory. -/
def leafAt? (d : Disk) (place : Place) : Option Node := (d.root.at? place).bind leaf?

/-- There is a leaf at a place when there is a node that is no directory. -/
theorem leafAt?_eq_some_iff :
    d.leafAt? place = some node ↔ d.root.at? place = some node ∧ node.isDirectory = false := by
  rw [leafAt?, Option.bind_eq_some_iff]
  constructor
  · rintro ⟨found, hfound, hleaf⟩
    obtain ⟨rfl, hdirectory⟩ := leaf?_eq_some_iff.1 hleaf
    exact ⟨hfound, hdirectory⟩
  · rintro ⟨hfound, hdirectory⟩
    exact ⟨node, hfound, leaf?_eq_some_iff.2 ⟨rfl, hdirectory⟩⟩

/-- The disk `d'` has all that `d` has, and nothing else but new
directories. -/
structure Spares (d d' : Disk) : Prop extends Grows d d' where
  leafAt?_eq : ∀ place, d'.leafAt? place = d.leafAt? place

/-- Doing nothing spares everything. -/
theorem Spares.refl (d : Disk) : Spares d d := ⟨Grows.refl d, fun _ => rfl⟩

/-- Two steps that spare what is there do so together. -/
theorem Spares.trans (h : Spares d d') (h' : Spares d' d'') : Spares d d'' :=
  ⟨h.toGrows.trans h'.toGrows, fun place => (h'.leafAt?_eq place).trans (h.leafAt?_eq place)⟩

/-! ### One new node -/

/-- Nothing lies below what is no directory, nor below a place with nothing at
it. -/
theorem at?_below_eq_none (h : ∀ found, node.at? place = some found → found.isDirectory = false)
    (name : Name) (below : Place) : node.at? (place ++ name :: below) = none := by
  rw [at?_append]
  cases hplace : node.at? place with
  | none => rfl
  | some found =>
      have hleaf := h found hplace
      cases found <;> first | rfl | cases hleaf

/-- A node that holds no others takes the place of nothing, or of one that
held none, and that is all that changes. -/
theorem leafAt?_setAt (hdirectory : d.root.at? place = some (.directory rights entries))
    (hfree : ∀ found, d.root.at? (place ++ [name]) = some found → found.isDirectory = false)
    (hnew : ∀ first below, new.at? (first :: below) = none) (q : Place) :
    (d.setAt (place ++ [name]) new).leafAt? q
      = if q = place ++ [name] then new.leaf? else d.leafAt? q := by
  have hself : (d.setAt (place ++ [name]) new).root.at? (place ++ [name]) = some new :=
    at?_setAt_self hdirectory name new
  by_cases hprefix : place ++ [name] <+: q
  · obtain ⟨below, rfl⟩ := hprefix
    cases below with
    | nil =>
        rw [List.append_nil, if_pos rfl, leafAt?, hself]
        rfl
    | cons first below =>
        -- Nothing lies below the new node, and nothing did before.
        rw [if_neg (by simp), leafAt?, leafAt?, at?_below_eq_none hfree, at?_append, hself,
          Option.bind_some, hnew]
  · rw [if_neg (by rintro rfl; exact hprefix (List.prefix_refl _))]
    exact leaf?_setAt_of_not_prefix hprefix _ _

/-- Putting a node at a place lets the disk grow if there was nothing, or
something with the same shell. -/
theorem grows_setAt
    (hfree : ∀ found, d.root.at? place = some found →
      found.isDirectory = false ∧ new.shell = found.shell) : Grows d (d.setAt place new) :=
  ⟨rfl, shell_setAt hfree⟩

/-- A new entry is made only in a directory that may be written to. -/
theorem create_eq_ok (h : d.create here new = .ok d') :
    ∃ rights entries, d.root.at? here.place = some (.directory rights entries) ∧
      d' = d.setAt here.entry new := by
  unfold create at h
  split at h
  · next rights entries hplace =>
    split at h
    · exact ⟨rights, entries, hplace, (Except.ok.inj h).symm⟩
    · cases h
  · cases h

/-! ### Directories -/

/-- A directory that is made where nothing is makes no difference to
anything else. -/
theorem spares_of_create (hfree : d.root.at? here.entry = none)
    (h : d.create here .emptyDirectory = .ok d') : Spares d d' := by
  obtain ⟨rights, entries, hplace, rfl⟩ := create_eq_ok h
  have hnone : ∀ {p : Node → Prop} (found : Node),
      d.root.at? here.entry = some found → p found := by
    intro p found hfound
    rw [hfree] at hfound
    cases hfound
  refine ⟨grows_setAt hnone, fun q => ?_⟩
  rw [Position.entry, leafAt?_setAt hplace hnone fun _ _ => rfl]
  split
  · next hq =>
    rw [hq, leafAt?, ← Position.entry, hfree]
    rfl
  · rfl

/-- Making a directory changes no file: it is made where nothing was. -/
theorem makeDirectory_spares (h : d.makeDirectory path = .ok d') : Spares d d' := by
  unfold makeDirectory at h
  obtain ⟨here, -, h⟩ := exists_of_bind_eq_ok h
  split at h
  · cases h
  · split at h
    · cases h
    · split at h
      · cases h
      · next hfree => exact spares_of_create (by simpa using hfree) h

/-- However many directories are missing, nothing but directories is
made. -/
theorem makeDirectoriesFrom_spares {paths : List Path}
    (h : d.makeDirectoriesFrom paths = .ok d') : Spares d d' := by
  induction paths generalizing d' with
  | nil =>
      rw [← Except.ok.inj h]
      exact .refl d
  | cons path parents ih =>
      rw [makeDirectoriesFrom] at h
      split at h
      · rw [← Except.ok.inj h]
        exact .refl d
      · split at h
        · next hmade =>
          rw [← Except.ok.inj h]
          exact makeDirectory_spares hmade
        · -- The directory that it lies in is missing and is made first.
          obtain ⟨between, hparents, h⟩ := exists_of_bind_eq_ok h
          refine (ih hparents).trans ?_
          split at h
          · next hmade =>
            rw [← Except.ok.inj h]
            exact makeDirectory_spares hmade
          · split at h
            · rw [← Except.ok.inj h]
              exact .refl between
            · cases h
        · split at h
          · rw [← Except.ok.inj h]
            exact .refl d
          · cases h

/-- Making a directory with those above it changes no file either, however
many of them had to be made. -/
theorem makeDirectories_spares (h : d.makeDirectories path = .ok d') : Spares d d' :=
  makeDirectoriesFrom_spares h

/-! ### Files -/

/-- What is at a place after bytes have been written there. A file gets
them and keeps its rights, a special file keeps nothing, and a file is
made where there was none. -/
def overwritten (content : ByteArray) : Option Node → Option Node
  | some (.special rights input) => some (.special rights input)
  | some (.file rights _) => some (.file rights content)
  | _ => some (.file .all content)

/-- Of what is written twice, the second stays. A special file keeps what it
is, so that writing to it does not change it at all. -/
theorem overwritten_overwritten (content content' : ByteArray) (found : Option Node) :
    overwritten content (overwritten content' found) = overwritten content found := by
  rcases found with _ | _ | _ | _ | _ <;> rfl

/-- The disk `d'` is `d` with bytes written at a place to which the path
leads. -/
structure Writes (path : Path) (content : ByteArray) (place : Place) (d d' : Disk) : Prop
    extends Grows d d' where
  locate_eq : d'.locate path = .ok place
  leafAt?_eq : ∀ q, d'.leafAt? q
    = if q = place then overwritten content (d.leafAt? q) else d.leafAt? q

/-- A walk up to the last name of a path ends in a directory, which can be
searched if there is a name to look up in it. -/
theorem directory_of_toName {keep : Bool} (h : d.toName keep here.place here.rest = true) :
    ∃ rights entries slashes, d.root.at? here.place = some (.directory rights entries) ∧
      here.rest = here.name :: slashes ∧ (here.name = [] ∨ rights.search = true) := by
  unfold toName at h
  split at h
  · next rights entries piece slashes hplace hrest =>
    have hname : here.name = piece := by
      rw [Position.name, hrest]
      rfl
    simp only [Bool.and_eq_true, Bool.or_eq_true, decide_eq_true_eq] at h
    obtain ⟨⟨-, hsearch⟩, -⟩ := h
    exact ⟨rights, entries, slashes, hplace, hname ▸ hrest, hname ▸ hsearch⟩
  · cases h

/-- Where a walk ended before the last name of a path, there the path leads
once that name has an entry that is no link. -/
theorem Grows.locate_entry {stop : Place → List Name → Bool} (h : Grows d d')
    (hfollow : d.follow stop path = .ok here) (hrest : here.rest = [here.name])
    (hplace : d.root.at? here.place = some (.directory rights entries))
    (hsearch : rights.search = true) (hname : Path.isMove here.name = false)
    (hsize : here.name.length ≤ Path.maxNameSize) (hentry : d'.root.at? here.entry = some node)
    (hlink : node.isLink = false) : d'.locate path = .ok here.entry := by
  obtain ⟨haccepted, hwalk⟩ := follow_eq_ok_iff.1 hfollow
  obtain ⟨entries', hplace'⟩ := h.directory hplace
  have hstep : d'.step here.place here.name = .ok here.entry :=
    step_eq_ok_iff.2 ⟨rights, entries', hplace', (Path.follow_eq_of_not_move hname _).symm,
      Or.inr ⟨hsearch, Or.inr ⟨hsize, Option.isSome_of_eq_some hentry⟩⟩⟩
  refine locate_eq_ok_iff.2 ⟨haccepted, here.links, ?_⟩
  rw [h.start, h.walk_toEnd (walk_eq_ok_iff.1 hwalk), hrest]
  refine walk_of_walks (.step rfl hstep (fun target htarget => ?_) (.done _ _))
  obtain rfl := Option.some.inj (hentry.symm.trans htarget)
  cases hlink

/-- A walk to a name that can be written to ends in a directory. The path
leads to the entry of the name from then on, as soon as there is one, and as
long as it is no link. -/
theorem locate_of_follow_toName (hfollow : d.follow (d.toName false) path = .ok here)
    (hname : Path.isMove here.name = false) (hslashes : here.hasSlashes = false)
    (hsize : here.name.length ≤ Path.maxNameSize) :
    ∃ rights entries, d.root.at? here.place = some (.directory rights entries) ∧
      ∀ {d' : Disk} {node : Node}, Grows d d' → d'.root.at? here.entry = some node →
        node.isLink = false → d'.locate path = .ok here.entry := by
  have hne : here.name ≠ [] := by
    intro hempty
    rw [hempty] at hname
    cases hname
  have hends : d.toName false here.place here.rest = true := by
    refine (walk_eq_ok_iff.1 (follow_eq_ok_iff.1 hfollow).2).ends.resolve_left
      fun hrest => hne ?_
    rw [Position.name, hrest]
    rfl
  obtain ⟨rights, entries, slashes, hplace, hrest, hsearch⟩ := directory_of_toName hends
  obtain rfl : slashes = [] := by
    rw [Position.hasSlashes, hrest] at hslashes
    simpa using hslashes
  exact ⟨rights, entries, hplace, fun hgrows hentry hlink =>
    hgrows.locate_entry hfollow hrest hplace (hsearch.resolve_left hne) hname hsize hentry hlink⟩

/-- A file is put where its path will lead, in the place of nothing or of a
file with the same rights. -/
theorem writes_setAt (hplace : d.root.at? here.place = some (.directory rights entries))
    (hlocate : ∀ {d' : Disk} {node : Node}, Grows d d' → d'.root.at? here.entry = some node →
      node.isLink = false → d'.locate path = .ok here.entry) {rights' : Rights}
    (hbefore : ∀ found, d.root.at? here.entry = some found →
      found.isDirectory = false ∧ (file rights' content).shell = found.shell)
    (hafter : overwritten content (d.leafAt? here.entry) = some (file rights' content)) :
    Writes path content here.entry d (d.setAt here.entry (file rights' content)) := by
  have hgrows := grows_setAt hbefore
  refine ⟨hgrows, hlocate hgrows (at?_setAt_self hplace here.name _) rfl, fun q => ?_⟩
  rw [Position.entry, leafAt?_setAt hplace (fun found hfound => (hbefore found hfound).1)
    fun _ _ => rfl]
  split
  · next hq =>
    rw [hq, ← Position.entry, hafter]
    rfl
  · rfl

/-- A file that has been written is where its path leads. Nothing else has
changed. -/
theorem writeFile_writes (h : d.writeFile path content = .ok d') :
    ∃ place, Writes path content place d d' := by
  unfold writeFile at h
  obtain ⟨here, hfollow, h⟩ := exists_of_bind_eq_ok h
  refine ⟨here.entry, ?_⟩
  split at h
  · cases h
  · next hmove =>
    obtain ⟨hname, hslashes⟩ : Path.isMove here.name = false ∧ here.hasSlashes = false := by
      simpa using hmove
    split at h
    · cases h
    · next hsize =>
      obtain ⟨rights, entries, hplace, hlocate⟩ :=
        locate_of_follow_toName hfollow hname hslashes (Nat.not_lt.1 hsize)
      -- What was there decides what is there now: nothing, a file or a special file.
      split at h
      · next hfree =>
        obtain ⟨_, _, -, rfl⟩ := create_eq_ok h
        refine writes_setAt hplace hlocate (fun found hfound => ?_) ?_
        · cases hfree.symm.trans hfound
        · rw [leafAt?, hfree]
          rfl
      · next rights' old hfile =>
        split at h
        · obtain rfl := Except.ok.inj h
          refine writes_setAt hplace hlocate (fun found hfound => ?_) ?_
          · obtain rfl := Option.some.inj (hfile.symm.trans hfound)
            exact ⟨rfl, rfl⟩
          · rw [leafAt?, hfile]
            rfl
        · cases h
      · next rights' input hspecial =>
        split at h
        · obtain rfl := Except.ok.inj h
          refine ⟨.refl d, hlocate (.refl d) hspecial rfl, fun q => ?_⟩
          split
          · next hq =>
            rw [hq, leafAt?, hspecial]
            rfl
          · rfl
        · cases h
      · cases h

/-- A file that is written once directories have been made: nothing else has
changed since before they were made. -/
theorem Spares.writes (h : Spares d d') (h' : Writes path content place d' d'') :
    Writes path content place d d'' := by
  refine ⟨h.toGrows.trans h'.toGrows, h'.locate_eq, fun q => ?_⟩
  rw [h'.leafAt?_eq, h.leafAt?_eq]

/-! ### Paths with different last names -/

/-- The last name of a path is that of a link. -/
def EndsInLink (d : Disk) (path : Path) : Prop :=
  ∃ here target, d.follow (d.toName true) path = .ok here ∧
    d.root.at? here.entry = some (.link target)

/-- A walk up to a name does not stop before the pieces that lead to it. -/
theorem toName_before_name (hlast : Path.IsName last) (keep : Bool) (place : Place) (piece : Name)
    (between : List Name) : d.toName keep place (piece :: between ++ [last]) = false := by
  rw [List.cons_append]
  unfold toName
  split
  · next rights entries first slashes _ hpieces =>
    obtain ⟨-, rfl⟩ := List.cons.inj hpieces
    simp [hlast.nonempty]
  · rfl

/-- It stops before the name itself, if links are kept. -/
theorem toName_name (hplace : d.root.at? place = some (.directory rights entries))
    (hsearch : rights.search = true) : d.toName true place [last] = true := by
  simp [toName, hplace, hsearch]

/-- A path whose last name stands in some directory leads to the entry of
that name, unless that is a link. The directory does not depend on the
name. -/
theorem locate_under (hlast : Path.IsName last)
    (h : d.locate (Path.under lead last) = .ok place) :
    ∃ here, d.walk toEnd maxLinks (Path.start d.workingDirectory (Path.under lead []))
        (Path.leadPieces lead) = .ok here ∧
      (place = here.place ++ [last] ∨ d.EndsInLink (Path.under lead last)) := by
  have hpieces : Path.pieces (Path.under lead last) = Path.leadPieces lead ++ [last] := by
    rw [Path.pieces_under, Path.splitOn_of_not_slash hlast.not_slash]
  obtain ⟨haccepted, links, hwalk⟩ := locate_eq_ok_iff.1 h
  rw [hpieces, Path.start_under, walk_append fun _ _ _ => rfl] at hwalk
  obtain ⟨here, hlead, hwalk⟩ := exists_of_bind_eq_ok hwalk
  refine ⟨here, hlead, ?_⟩
  generalize here.links = links at hwalk
  cases walk_eq_ok_iff.1 hwalk with
  | step _ hstep _ hrest =>
      obtain ⟨rights, entries, hplace, rfl, -⟩ := step_eq_ok_iff.1 hstep
      cases hrest
      exact Or.inl (Path.follow_eq_of_not_move hlast.not_move _)
  | link _ hstep hlink _ =>
      -- The same walk, but for its last step, comes to the name of the link.
      obtain ⟨rights, entries, hplace, rfl, hsearch⟩ := step_eq_ok_iff.1 hstep
      rw [Path.follow_eq_of_not_move hlast.not_move] at hlink
      have hends : d.toName true here.place [last] = true :=
        toName_name hplace (hsearch.resolve_left hlast.nonempty).1
      refine Or.inr ⟨{ place := here.place, rest := [last], links := here.links }, _, ?_, hlink⟩
      refine follow_eq_ok_iff.2 ⟨haccepted, ?_⟩
      rw [hpieces, Path.start_under, walk_append (toName_before_name hlast true), hlead]
      exact walk_of_walks (.stopped hends)

/-- Two paths that differ in their last names lead to one place only if
one of the names is that of a link. -/
theorem endsInLink_of_locate_eq {last' : Name} (hlast : Path.IsName last)
    (hlast' : Path.IsName last') (hne : last ≠ last')
    (h : d.locate (Path.under lead last) = .ok place)
    (h' : d.locate (Path.under lead last') = .ok place) :
    d.EndsInLink (Path.under lead last) ∨ d.EndsInLink (Path.under lead last') := by
  obtain ⟨here, hwalk, hplace⟩ := locate_under hlast h
  obtain ⟨here', hwalk', hplace'⟩ := locate_under hlast' h'
  obtain rfl := Except.ok.inj (hwalk.symm.trans hwalk')
  rcases hplace with rfl | hlink
  · rcases hplace' with heq | hlink'
    · exact absurd (List.cons.inj (List.append_cancel_left heq)).1 hne
    · exact Or.inr hlink'
  · exact Or.inl hlink

end Disk

end RouteDoc.Files
