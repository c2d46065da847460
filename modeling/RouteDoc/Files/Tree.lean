import RouteDoc.Files.Path
import RouteDoc.Keyed

/-!
# `RouteDoc.Files.Tree`: trees of files and directories

A node of a tree is a file with its bytes, a directory with named nodes,
a symbolic link to a path, or a special file such as a device. Every
node but a link has the rights that the program has to it. A place in a
tree is the list of names that leads to it from the root; no link is
followed on the way.

A tree says nothing about the inner life of a disk. Each file has one
name, so that there are no hard links to it; rights are what comes out
for the program, whoever owns the node; and of special files there are
only those that can be read to an end and keep nothing of what is
written to them.

* `child?_setChild`: a node that was put into a directory is found
  there.
-/

set_option autoImplicit false

namespace RouteDoc.Files

/-- What the program may do with a node. -/
structure Rights where
  read : Bool
  write : Bool
  /-- To follow paths through a directory. -/
  search : Bool
  deriving DecidableEq, Repr

/-- Every right. The program has them to what it makes. -/
def Rights.all : Rights := { read := true, write := true, search := true }

/-- What there can be at a place. -/
inductive Node where
  | file (rights : Rights) (content : ByteArray)
  | directory (rights : Rights) (entries : List (Name × Node))
  /-- A symbolic link. -/
  | link (target : Path)
  /-- A special file, from which the given bytes can be read. -/
  | special (rights : Rights) (input : ByteArray)

instance : Inhabited Node := ⟨.directory .all []⟩

namespace Node

/-- A new directory. -/
def emptyDirectory : Node := directory .all []

/-- Whether this is a directory. -/
def isDirectory : Node → Bool
  | directory .. => true
  | file .. | link _ | special .. => false

/-- Whether this is a link. -/
def isLink : Node → Bool
  | link _ => true
  | file .. | directory .. | special .. => false

/-- The node of the given name in a directory. -/
def child? (name : Name) : Node → Option Node
  | directory _ entries => (Keyed.find? Prod.fst name entries).map Prod.snd
  | file .. | link _ | special .. => none

/-- The node at the given place. -/
def at? : (place : Place) → Node → Option Node
  | [], node => some node
  | name :: place, node => (node.child? name).bind (at? place)

/-- The directory with a node under the given name, in the place of an
earlier one. What is no directory has no room for nodes and stays as it
is. -/
def setChild (node : Node) (name : Name) (child : Node) : Node :=
  match node with
  | directory rights entries => directory rights (Keyed.put Prod.fst (name, child) entries)
  | node => node

/-- The tree with a node at the given place. Directories on the way
there are made if they are missing. -/
def setAt (node : Node) : (place : Place) → (new : Node) → Node
  | [], new => new
  | name :: place, new =>
    node.setChild name (((node.child? name).getD emptyDirectory).setAt place new)

/-- A node that was put into a directory is found there. -/
theorem child?_setChild {rights : Rights} {entries : List (Name × Node)} {name : Name}
    {child : Node} : ((directory rights entries).setChild name child).child? name = some child := by
  have h : Keyed.find? Prod.fst name (Keyed.put Prod.fst (name, child) entries)
      = some (name, child) := Keyed.find?_put_of_eq rfl
  simp [setChild, child?, h]

/-- What can be read from a node once it is open. A link is never
opened itself. -/
def read : Node → Except AccessFault ByteArray
  | file rights content => if rights.read then .ok content else .error .denied
  | special rights input => if rights.read then .ok input else .error .denied
  | directory rights _ => if rights.read then .error .isADirectory else .error .denied
  | link _ => .error .tooManyLinks

mutual

/-- The files of a tree with their places, directory by directory. -/
def files : Node → List (Place × ByteArray)
  | file _ content => [([], content)]
  | directory _ entries => filesOfEntries entries
  | link _ | special .. => []

/-- The files below the entries of a directory, with their places. -/
def filesOfEntries : List (Name × Node) → List (Place × ByteArray)
  | [] => []
  | (name, node) :: entries =>
    ((files node).map fun (place, content) => (name :: place, content)) ++ filesOfEntries entries

end

end Node

end RouteDoc.Files
