import RouteDoc.Log
import RouteDoc.Program

/-!
# `RouteDoc.Main`: the program

The outer layer. It copies the part of the real disk that a command line
is about, works out what comes of the command line, and puts what is new
or changed on the real disk. Names that are no text are copied as they
are shown, a link as a link to where it leads in the end, and a special
file as an empty one.
-/

set_option autoImplicit false

namespace RouteDoc.Main

/-- The path of a place on the real disk. -/
def pathOfPlace (place : Files.Place) : String :=
  "/" ++ String.intercalate "/" (place.map Text.shown)

/-- The place that a path of the real disk leads to. -/
def placeOfPath (path : String) : IO Files.Place := do
  let pieces := Files.Path.pieces (Text.bytes (← IO.FS.realPath path).toString)
  return pieces.filter fun piece => piece != []

/-- An entry of a directory on the real disk; a directory comes without
its own entries. A link that leads nowhere gets a target that no entry
can have. -/
def readEntry (directory name : String) : IO (Option Files.Node) := do
  let entry : IO.FS.DirEntry := { root := directory, fileName := name }
  let unreadable : Files.Rights := { Files.Rights.all with read := false }
  try
    match (← entry.path.symlinkMetadata).type with
    | .dir =>
      let rights ← try discard entry.path.readDir; pure .all catch _ => pure unreadable
      return some (.directory rights [])
    | .symlink =>
      let target ← try pure (← IO.FS.realPath entry.path).toString catch _ => pure "\x00"
      return some (.link (Text.bytes target))
    | .file =>
      try return some (.file .all (← IO.FS.readBinFile entry.path))
      catch _ => return some (.file unreadable .empty)
    | .other => return some (.special .all .empty)
  catch _ => return none

/-- Copies what is at a place of the real disk, with the directories on
the way there, and what it leads to if it is a link. -/
partial def copyPlace (root : Files.Node) (place : Files.Place) : IO Files.Node := do
  let some name := place.getLast? | return root
  let root ← copyPlace root place.dropLast
  if (root.at? place).isSome then return root
  match ← readEntry (pathOfPlace place.dropLast) (Text.shown name) with
  | none => return root
  | some (.link target) =>
    let root := root.setAt place (.link target)
    copyPlace root ((Files.Path.pieces target).filter fun piece => piece != [])
  | some node => return root.setAt place node

/-- Copies what the path and its ancestors lead to. -/
def copyPath (root : Files.Node) (path : Files.Path) : IO Files.Node :=
  (Files.Path.ancestors path).foldlM (fun root path => do
    try
      match Files.Path.fileName? path with
      | none => copyPlace root (← placeOfPath path.shown)
      | some name =>
        let parent := (Files.Path.parent? path).getD []
        copyPlace root ((← placeOfPath (if parent = [] then "." else parent.shown)) ++ [name])
    catch _ => return root) root

/-- Copies what lies below a directory of the real disk, apart from what
a scan passes over. -/
partial def copyBelow (root : Files.Node) (place : Files.Place) : IO Files.Node := do
  let entries ← try (← IO.FS.realPath (pathOfPlace place)).readDir catch _ => pure #[]
  entries.foldlM (fun root entry => do
    let name := Text.bytes entry.fileName
    let root ← copyPlace root (place ++ [name])
    match root.at? (place ++ [name]) with
    | some node =>
      if node.isDirectory && !Files.isPassedOver name node then copyBelow root (place ++ [name])
      else return root
    | none => return root) root

/-- The part of the real disk that settings are about. -/
def copyDisk (settings : CommandLine.Settings) : IO Files.Disk := do
  let workingDirectory ← placeOfPath "."
  let root ← copyPlace .emptyDirectory workingDirectory
  let root ← (Program.paths settings).foldlM copyPath root
  let disk : Files.Disk := { root, workingDirectory }
  match settings.source.map disk.locate with
  | some (.ok place) => return { disk with root := ← copyBelow root place }
  | _ => return disk

/-- Puts what is new or changed at a path on the real disk. -/
partial def store (path : String) (before : Option Files.Node) (after : Files.Node) : IO Unit :=
  match before, after with
  | some (.file _ old), .file _ new =>
    if old = new then pure () else IO.FS.writeBinFile path new
  | _, .file _ new => IO.FS.writeBinFile path new
  | before, .directory _ entries => do
    if before.isNone then IO.FS.createDir path
    for (name, node) in entries do
      store (path ++ "/" ++ Text.shown name) (before.bind (Files.Node.child? name)) node
  | _, _ => pure ()

/-- Reports what has come of a command line. -/
def report (outcome : Program.Outcome) : IO Unit := do
  for notice in outcome.notices do
    IO.eprint notice.logText
  if outcome.errorText != "" then IO.eprintln outcome.errorText

/-- Does what a command line asks for, and yields the exit code. -/
def run (arguments : List String) : IO UInt32 := do
  match CommandLine.read arguments with
  | .error fault =>
    let stream ← if fault.isRequest then IO.getStdout else IO.getStderr
    stream.putStr fault.text
    return fault.exitCode.toUInt32
  | .ok settings =>
    let disk ← copyDisk settings
    let outcome := Program.outcomeOf settings disk
    store "" (some disk.root) outcome.disk.root
    report outcome
    return outcome.exitCode.toUInt32

end RouteDoc.Main

/-- The program. -/
def main (arguments : List String) : IO UInt32 := RouteDoc.Main.run arguments
