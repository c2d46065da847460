import RouteDoc.Docblock.Extract
import RouteDoc.Dump.Import
import RouteDoc.Files.Scan

/-!
# `RouteDoc.Extraction`: the routes of a project

Routes come from the docblocks of a source directory and from a route
dump. There is an extractor for each; it is active if its source is
given. The extractors work on one set of routes, one after the other:
docblocks go in by URL, so that the first route of a URL stays, and
entries of a dump by name.

* `extract_nil`: without extractors there are no routes.
-/

set_option autoImplicit false

namespace RouteDoc

/-- Where routes are looked for. -/
structure Sources where
  /-- The directory with the source files. -/
  directory : Option Files.Path
  /-- The route dump. -/
  dump : Option Files.Path
  /-- The extension of the source files. -/
  extension : String
  deriving DecidableEq, Repr

/-- The extension of source files unless another one is given. -/
def defaultExtension : String := "php"

/-- A way to find routes. -/
inductive Extractor where
  /-- From the docblocks of source files. -/
  | docblocks
  /-- From a route dump. -/
  | dump
  deriving DecidableEq, Repr

namespace Extractor

/-- The name of an extractor in messages. -/
def name : Extractor → String
  | docblocks => "annotations"
  | dump => "symfony-json"

/-- The extractors of a run, in order. -/
def all : List Extractor := [docblocks, dump]

/-- The source of an extractor. -/
def source? (sources : Sources) : Extractor → Option Files.Path
  | docblocks => sources.directory
  | dump => sources.dump

end Extractor

namespace Extraction

variable (disk : Files.Disk)

/-- The routes of a source file. A file that cannot be read is reported
and has none. -/
def routesOfFile (path : Files.Path) : Noted (List Route) :=
  match disk.readText path with
  | .ok text => Docblock.extract text
  | .error fault => do
    Noted.note (.unreadable path fault)
    return []

/-- The routes of several source files, file by file. -/
def routesOfFiles : List Files.Path → Noted (List Route)
  | [] => pure []
  | path :: paths => do
    let routes ← routesOfFile disk path
    let rest ← routesOfFiles paths
    return routes ++ rest

/-- The source files below a directory. What cannot be reached is
reported. -/
def sourceFiles (directory : Files.Path) (extension : String) : Noted (List Files.Path) := do
  let found := disk.scan directory extension
  Noted.noteAll (found.faults.map fun (path, fault) => .unreachable path fault)
  return found.files

/-- The routes of the docblocks below a directory. -/
def docblockRoutes (directory : Files.Path) (extension : String) : Noted (List Route) := do
  let paths ← sourceFiles disk directory extension
  Noted.note (.filesFound paths.length extension directory)
  routesOfFiles disk paths

/-- The set after an extractor has worked on its source. -/
def extractFrom (extension : String) (s : RouteSet) (source : Files.Path) :
    Extractor → ExceptT Dump.Fault Noted RouteSet
  | .docblocks => return s.insertAllByUrl (← docblockRoutes disk source extension)
  | .dump => Dump.importFile disk source s

/-- The set after one extractor. -/
def step (sources : Sources) (s : RouteSet) (extractor : Extractor) :
    ExceptT Dump.Fault Noted RouteSet :=
  match extractor.source? sources with
  | none => pure s
  | some source => do
    Noted.note (.extractorStarted extractor.name)
    let s' ← extractFrom disk sources.extension s source extractor
    Noted.note (.extractorFinished extractor.name (s'.size - s.size) s'.size)
    return s'

/-- The routes that the extractors find, one after the other. -/
def extract (sources : Sources) (extractors : List Extractor) :
    ExceptT Dump.Fault Noted RouteSet :=
  extractors.foldlM (step disk sources) ∅

/-- Without extractors there are no routes. -/
theorem extract_nil (sources : Sources) : extract disk sources [] = pure ∅ := rfl

end Extraction

end RouteDoc
