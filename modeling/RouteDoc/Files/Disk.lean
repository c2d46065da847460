import RouteDoc.Files.Fault
import RouteDoc.Files.Path
import RouteDoc.Files.Tree

/-!
# `RouteDoc.Files.Disk`: reading and writing by path

A disk is a tree of files together with the place in which relative
paths start. A path is followed piece by piece. Every piece is looked up
in a directory that the program may search, and a slash at the end asks
for a directory too. Where a link stands, its target is followed instead
of it, up to a limit. Some paths are refused before that, whatever there
is on the disk.

A walk along a path may stop before the last piece, at the place where
something is to be made.

* `walk_nil`, `walk_cons`: one step of a walk.
* `lookup_nil`: the empty path leads nowhere.
-/

set_option autoImplicit false

namespace RouteDoc.Files

/-- A tree of files and the directory in which relative paths start. -/
structure Disk where
  /-- The root of the tree. -/
  root : Node
  /-- The place of the working directory. -/
  workingDirectory : Place

/-- How far a walk along a path has come. -/
structure Position where
  place : Place
  /-- The pieces that are still to be followed. -/
  rest : List Name
  /-- How many links may still be followed. -/
  links : Nat
  deriving DecidableEq, Repr

namespace Disk

variable (disk : Disk)

/-! ### Following paths -/

/-- The place that a piece of a path leads to. -/
def step (place : Place) (piece : Name) : Except AccessFault Place :=
  match disk.root.at? place with
  | none => .error .notFound
  | some (.directory rights entries) =>
    if piece = [] then .ok place
    else if !rights.search then .error .denied
    else if Path.isMove piece then .ok (Path.follow place piece)
    else if Path.maxNameSize < piece.length then .error .nameTooLong
    else if (Keyed.find? Prod.fst piece entries).isSome then .ok (Path.follow place piece)
    else .error .notFound
  | some _ => .error .notADirectory

/-- A walk along pieces until it is to stop, or until it comes to a
link. From there, `jump` goes on with the target of the link and the
pieces behind it. -/
def walkWith (stop : Place → List Name → Bool)
    (jump : Place → Path → List Name → Except AccessFault Position) (links : Nat) :
    Place → List Name → Except AccessFault Position
  | place, [] => .ok { place, rest := [], links }
  | place, piece :: rest =>
    if stop place (piece :: rest) then .ok { place, rest := piece :: rest, links }
    else match disk.step place piece with
      | .error fault => .error fault
      | .ok next =>
        match disk.root.at? next with
        | some (.link target) => jump place target rest
        | _ => walkWith stop jump links next rest

/-- A walk along pieces from a place. It ends where it is to stop, or
when no piece is left. -/
def walk (stop : Place → List Name → Bool) :
    (links : Nat) → Place → List Name → Except AccessFault Position
  | 0 => disk.walkWith stop (fun _ _ _ => .error .tooManyLinks) 0
  | links + 1 => disk.walkWith stop (fun place target rest =>
      walk stop links (Path.start place target) (Path.pieces target ++ rest)) (links + 1)

/-- The rest of a walk from a link on. The target of a link is seen from
the directory that the link stands in. -/
def walkLink (stop : Place → List Name → Bool) (place : Place) (target : Path)
    (rest : List Name) : (links : Nat) → Except AccessFault Position
  | 0 => .error .tooManyLinks
  | links + 1 => disk.walk stop links (Path.start place target) (Path.pieces target ++ rest)

/-- Without pieces a walk is at its end. -/
theorem walk_nil (stop : Place → List Name → Bool) (links : Nat) (place : Place) :
    disk.walk stop links place [] = .ok { place, rest := [], links } := by
  cases links <;> rfl

/-- A walk along one more piece: it stops before the piece, fails there,
goes on with the target of a link, or goes on with the rest. -/
theorem walk_cons (stop : Place → List Name → Bool) (links : Nat) (place : Place) (piece : Name)
    (rest : List Name) :
    disk.walk stop links place (piece :: rest)
      = if stop place (piece :: rest) then .ok { place, rest := piece :: rest, links }
        else match disk.step place piece with
          | .error fault => .error fault
          | .ok next =>
            match disk.root.at? next with
            | some (.link target) => disk.walkLink stop place target rest links
            | _ => disk.walk stop links next rest := by
  cases links <;> rfl

/-- The most links that are followed along one path. -/
def maxLinks : Nat := 40

/-- The position at which the walk along a path ends. -/
def follow (stop : Place → List Name → Bool) (path : Path) : Except AccessFault Position :=
  match Path.refusal? path with
  | some fault => .error fault
  | none => disk.walk stop maxLinks (Path.start disk.workingDirectory path) (Path.pieces path)

/-- Follows a path to its end. -/
def toEnd (_ : Place) (_ : List Name) : Bool := false

/-- The place that a path leads to. -/
def locate (path : Path) : Except AccessFault Place :=
  (disk.follow toEnd path).map Position.place

/-- The node that a path leads to. -/
def lookup (path : Path) : Except AccessFault Node := do
  let place ← disk.locate path
  match disk.root.at? place with
  | some node => .ok node
  | none => .error .notFound

/-- The empty path leads nowhere. -/
theorem lookup_nil : disk.lookup [] = .error .notFound := rfl

/-- Whether a path leads anywhere. -/
def pathExists (path : Path) : Bool :=
  match disk.lookup path with
  | .ok _ => true
  | .error _ => false

/-- Whether a path leads to a directory. -/
def isDirectory (path : Path) : Bool :=
  match disk.lookup path with
  | .ok node => node.isDirectory
  | .error _ => false

/-- Whether a path leads to a file that is not special. -/
def isFile (path : Path) : Bool :=
  match disk.lookup path with
  | .ok (.file ..) => true
  | _ => false

/-- The text of a file. -/
def readText (path : Path) : Except ReadFault String :=
  match disk.lookup path >>= Node.read with
  | .error fault => .error (.access fault)
  | .ok content =>
    match String.fromUTF8? content with
    | some text => .ok text
    | none => .error .notText

/-- Why the directory at a path cannot be opened to list its entries, if
it cannot. -/
def openFault? (path : Path) : Option AccessFault :=
  match disk.lookup path with
  | .error fault => some fault
  | .ok (.directory rights _) => if rights.read then none else some .denied
  | .ok _ => some .notADirectory

/-! ### Making files and directories -/

/-- Follows a path up to its last name, which is to be looked up in a
directory that can be searched; only slashes may stand behind the name.
Unless `keep` is set, a walk goes on from a link of that name. -/
def toName (keep : Bool) (place : Place) (pieces : List Name) : Bool :=
  match disk.root.at? place, pieces with
  | some (.directory rights entries), piece :: slashes =>
    slashes.all List.isEmpty && (piece = [] || rights.search)
      && (keep || !slashes.isEmpty || match Keyed.find? Prod.fst piece entries with
        | some (_, node) => !node.isLink
        | none => true)
  | _, _ => false

end Disk

namespace Position

variable (here : Position)

/-- The name that comes next. -/
def name : Name := here.rest.headD []

/-- Whether slashes follow that name. -/
def hasSlashes : Bool := 1 < here.rest.length

/-- The place of the entry of that name. -/
def entry : Place := here.place ++ [here.name]

end Position

namespace Disk

variable (disk : Disk)

/-- The disk with a node at a place. -/
def setAt (place : Place) (node : Node) : Disk := { disk with root := disk.root.setAt place node }

/-- The disk with a new node at a place. The directory must be one that
the program may write to. -/
def create (here : Position) (node : Node) : Except AccessFault Disk :=
  match disk.root.at? here.place with
  | some (.directory rights _) =>
    if rights.write then .ok (disk.setAt here.entry node) else .error .denied
  | _ => .error .denied

/-- The disk with the given bytes as the file that a path leads to. The
directory of the file must be there. A file that is there keeps its
rights, and a special file keeps nothing. -/
def writeFile (path : Path) (content : ByteArray) : Except AccessFault Disk := do
  let here ← disk.follow (disk.toName false) path
  if Path.isMove here.name || here.hasSlashes then .error .isADirectory
  else if Path.maxNameSize < here.name.length then .error .nameTooLong
  else match disk.root.at? here.entry with
    | none => disk.create here (.file .all content)
    | some (.file rights _) =>
      if rights.write then .ok (disk.setAt here.entry (.file rights content)) else .error .denied
    | some (.special rights _) => if rights.write then .ok disk else .error .denied
    | some _ => .error .isADirectory

/-- The disk with a new directory at a path. The directory that it lies
in must be there. A link that has its name is not followed. -/
def makeDirectory (path : Path) : Except AccessFault Disk := do
  let here ← disk.follow (disk.toName true) path
  if Path.isMove here.name then .error .alreadyExists
  else if Path.maxNameSize < here.name.length then .error .nameTooLong
  else if (disk.root.at? here.entry).isSome then .error .alreadyExists
  else disk.create here .emptyDirectory

/-- The disk with directories at the first of the paths, if need be
after the same for the rest of them. A directory that is there already
is no fault. -/
def makeDirectoriesFrom : Disk → List Path → Except AccessFault Disk
  | disk, [] => .ok disk
  | disk, path :: parents =>
    if path = [] then .ok disk
    else match disk.makeDirectory path with
      | .ok disk => .ok disk
      | .error .notFound => do
        let disk ← makeDirectoriesFrom disk parents
        match disk.makeDirectory path with
        | .ok disk => .ok disk
        | .error fault => if disk.isDirectory path then .ok disk else .error fault
      | .error fault => if disk.isDirectory path then .ok disk else .error fault

/-- The disk with a directory at a path, and with all the directories
that it lies in. -/
def makeDirectories (path : Path) : Except AccessFault Disk :=
  disk.makeDirectoriesFrom (Path.ancestors path)

end Disk

end RouteDoc.Files
