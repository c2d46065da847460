import RouteDoc.Files.Disk

/-!
# `RouteDoc.Files.Scan`: the source files below a directory

A scan goes through the tree below a directory, the entries of each
directory in the order of their names, and collects the files with a
given extension. Entries with a name that starts with a dot are left
out, and so are the directories `vendor` and `var` of a project. The
place where the scan starts is never left out.

The kinds of the entries are known from their directory, and a link is
not gone through; but whatever is opened or looked at is reached by its
path from the start. A directory that cannot be opened so is a fault of
the scan, which goes on beside it. An entry is collected if its path
leads to a file, so that a link to a file counts as one, and an entry of
which this cannot be told is left out.

* `visits_file`: a file is its own only entry.
-/

set_option autoImplicit false

namespace RouteDoc.Files

/-- The directories that a scan passes over. -/
def skippedNames : List Name := [Text.bytes "vendor", Text.bytes "var"]

/-- Whether a scan passes over the entry of a directory. -/
def isPassedOver (name : Name) (node : Node) : Bool :=
  name.head? = some Path.dot || (node.isDirectory && name ∈ skippedNames)

/-- Whether two entries may stand in this order. -/
def nameLe {α : Type} (a b : Name × α) : Bool := a.1 ≤ b.1

/-- An entry that a scan comes across. -/
structure Visit where
  /-- The place below the start of the scan. -/
  place : Place
  /-- Why the entry cannot be opened, if it is a directory that cannot. -/
  fault : Option AccessFault
  deriving DecidableEq, Repr

/-- The entry as seen from the directory around the start. -/
def Visit.below (name : Name) (visit : Visit) : Visit :=
  { visit with place := name :: visit.place }

mutual

/-- The entries that a scan of a tree comes across, in order; a
directory comes before what lies below it. `fault?` says why the
directory at a place cannot be opened. -/
def visits : Node → (fault? : Place → Option AccessFault) → List Visit
  | .directory _ entries, fault? =>
    { place := [], fault := fault? [] } :: match fault? [] with
      | some _ => []
      | none => ((visitsByEntry entries fault?).mergeSort nameLe).flatMap fun (name, below) =>
        below.map (Visit.below name)
  | _, _ => [{ place := [], fault := none }]

/-- The entries below each entry that is not passed over, with its
name. -/
def visitsByEntry :
    List (Name × Node) → (fault? : Place → Option AccessFault) → List (Name × List Visit)
  | [], _ => []
  | (name, node) :: entries, fault? =>
    if isPassedOver name node then visitsByEntry entries fault?
    else (name, visits node fun place => fault? (name :: place)) :: visitsByEntry entries fault?

end

/-- A file is its own only entry. -/
theorem visits_file (rights : Rights) (content : ByteArray)
    (fault? : Place → Option AccessFault) :
    visits (.file rights content) fault? = [{ place := [], fault := none }] := by
  simp [visits]

/-- The extension that a setting asks for: leading dots do not
count. -/
def wantedExtension (setting : String) : Name :=
  (Text.bytes setting).dropWhile (· = Path.dot)

/-- What a scan yields. -/
structure Findings where
  /-- The paths of the files, in order. -/
  files : List Path
  /-- The paths that the scan could not follow, in order. -/
  faults : List (Path × AccessFault)
  deriving DecidableEq, Repr

/-- The path of an entry, if it is a file to be collected. -/
def Disk.fileOf? (disk : Disk) (root : Path) (extension : Name) (visit : Visit) : Option Path :=
  let path := Path.joinAll root visit.place
  if disk.isFile path && Path.extension? path = some extension then some path else none

/-- The fault of an entry, if it is a directory that cannot be
opened. -/
def faultOf? (root : Path) (visit : Visit) : Option (Path × AccessFault) :=
  visit.fault.map fun fault => (Path.joinAll root visit.place, fault)

/-- Scans for the files with an extension, from `root` on. -/
def Disk.scan (disk : Disk) (root : Path) (setting : String) : Findings :=
  match disk.lookup root with
  | .error fault => { files := [], faults := [(root, fault)] }
  | .ok node =>
    let found := visits node fun place => disk.openFault? (Path.joinAll root place)
    { files := found.filterMap (disk.fileOf? root (wantedExtension setting))
      faults := found.filterMap (faultOf? root) }

end RouteDoc.Files
