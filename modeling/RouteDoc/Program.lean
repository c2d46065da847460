import RouteDoc.CommandLine.Parser
import RouteDoc.Output
import RouteDoc.Text.Lines

/-!
# `RouteDoc.Program`: a run from the command line to the files

The settings of a command line are first checked against the disk. Then
the routes are extracted and written in each format. Whatever fails ends
the run; files that were written before stay.

* `check_of_no_source`: without a source there is nothing to extract.
-/

set_option autoImplicit false

namespace RouteDoc

open CommandLine (Settings UsageFault)

/-! ### Checking the settings -/

/-- What can be wrong with settings. -/
inductive SetupFault where
  /-- There is no source at all. -/
  | nothingToExtract
  | sourceMissing (path : Files.Path)
  | sourceNotADirectory (path : Files.Path)
  | outputMissing (path : Files.Path)
  | outputNotADirectory (path : Files.Path)
  deriving DecidableEq, Repr

/-- The text for a fault. -/
def SetupFault.message : SetupFault → String
  | nothingToExtract => "Nothing to extract: specify --src and/or --symfony-json"
  | sourceMissing path => "Source directory does not exist: " ++ path.shown
  | sourceNotADirectory path => "Source path is not a directory: " ++ path.shown
  | outputMissing path => "Output directory does not exist: " ++ path.shown
  | outputNotADirectory path => "Output path is not a directory: " ++ path.shown

namespace Program

/-- The settings as they are used: every format once, in order of first
appearance. -/
def prepared (s : Settings) : Settings := { s with formats := s.formats.eraseDups }

/-- The notices on settings that are in order. -/
def settingsNotices (s : Settings) : List Notice :=
  (s.source.map Notice.sourceDirectory).toList ++ (s.dump.map Notice.dumpFile).toList
    ++ [.outputDirectory s.output, .server s.host s.basePath, .formats s.formats]

/-- Fails with `missing` unless a path leads to something, and with
`other` unless that is a directory. -/
def needDirectory (disk : Files.Disk) (path : Files.Path) (missing other : SetupFault) :
    Except SetupFault Unit :=
  if !disk.pathExists path then .error missing
  else if !disk.isDirectory path then .error other
  else .ok ()

/-- Checks that there is a source, and that the directories are
there. -/
def check (disk : Files.Disk) (s : Settings) : Except SetupFault Unit := do
  if s.source.isNone && s.dump.isNone then .error .nothingToExtract
  match s.source with
  | some path => needDirectory disk path (.sourceMissing path) (.sourceNotADirectory path)
  | none => pure ()
  needDirectory disk s.output (.outputMissing s.output) (.outputNotADirectory s.output)

/-- Without a source there is nothing to extract. -/
theorem check_of_no_source {disk : Files.Disk} {s : Settings} (hs : s.source = none)
    (hd : s.dump = none) : check disk s = .error .nothingToExtract := by
  simp [check, hs, hd]
  rfl

/-- Checks the settings and makes them ready for use. -/
def setUp (disk : Files.Disk) (s : Settings) : ExceptT SetupFault Noted Settings := do
  ExceptT.mk (pure (check disk s))
  let s := prepared s
  (Noted.noteAll (settingsNotices s) : Noted Unit)
  return s

end Program

/-! ### Running -/

/-- Why a run fails. -/
inductive RunFault where
  /-- The settings are not in order. -/
  | setup (fault : SetupFault)
  /-- The routes cannot be extracted. -/
  | extraction (fault : Dump.Fault)
  /-- An output cannot be written. -/
  | output (format : Format) (fault : OutputFault)
  deriving DecidableEq, Repr

/-- The texts for a fault and for what lies behind it, outermost
first. -/
def RunFault.chain : RunFault → List String
  | setup fault => [fault.message]
  | extraction fault => "Route extraction failed" :: fault.chain
  | output format fault => ("Writer '" ++ format.name ++ "' failed") :: fault.chain

namespace Program

/-- The path of the output in a format. -/
def outputPath (s : Settings) (format : Format) : Files.Path :=
  let several : Bool := 1 < s.formats.length
  Files.Path.join s.output (Text.bytes (Output.fileName format s.fileName several))

/-- The paths that a run with these settings follows: its sources, the
output directory and the outputs. -/
def paths (s : Settings) : List Files.Path :=
  let s := prepared s
  s.source.toList ++ s.dump.toList ++ s.output :: s.formats.map (outputPath s)

/-- Writes the routes in one format. -/
def writeOutput (s : Settings) (routes : List Route) (format : Format) : DiskStep RunFault Unit :=
  ExceptT.adapt (RunFault.output format)
    (Output.write format routes s.host s.basePath (outputPath s format))

/-- Extracts the routes that settings ask for. -/
def extractRoutes (s : Settings) : DiskStep RunFault RouteSet := do
  let disk ← get
  ExceptT.mk (liftM (ExceptT.adapt RunFault.extraction
    (Extraction.extract disk s.sources Extractor.all)).run)

/-- The notices at the end of a run. -/
def summaryNotices (s : Settings) (routes : RouteSet) : List Notice :=
  [.extracted, .summary, .routeCount routes.size]
    ++ s.formats.map fun format => .written (outputPath s format)

/-- Extracts routes and writes them in every format. -/
def run (s : Settings) : DiskStep RunFault Unit := do
  DiskStep.note .extracting
  let routes ← extractRoutes s
  if routes.isEmpty then DiskStep.note .noRoutes
  s.formats.forM (writeOutput s routes.routes)
  DiskStep.noteAll (summaryNotices s routes)

/-- Checks the settings of a command line and does what they ask for,
from the first notice to the last. -/
def process (s : Settings) : DiskStep RunFault Unit := do
  DiskStep.note .started
  let disk ← get
  let s ← ExceptT.mk (liftM (ExceptT.adapt RunFault.setup (setUp disk s)).run)
  run s
  DiskStep.note .finished

/-! ### The outcome of a command line -/

/-- What comes of a command line. -/
structure Outcome where
  /-- The exit code. -/
  exitCode : Nat
  /-- The notices, in order. -/
  notices : List Notice
  /-- What is said of a failure. -/
  errorText : String
  /-- The disk after the run. -/
  disk : Files.Disk

/-- A cause of a failure; several causes are numbered. -/
def causeText (several : Bool) (number : Nat) (cause : String) : String :=
  if several then
    let digits := toString number
    String.ofList (List.replicate (5 - digits.length) ' ') ++ digits ++ ": "
      ++ Text.indentTail "       " cause
  else "    " ++ Text.indentTail "    " cause

/-- The text for a failure: what has failed and, if more is known, the
causes, outermost first. -/
def failureText : List String → String
  | [] => ""
  | [fault] => "Error: " ++ fault
  | fault :: causes =>
    let several : Bool := 1 < causes.length
    let lines := causes.mapIdx fun number cause => "\n" ++ causeText several number cause
    "Error: " ++ fault ++ "\n\nCaused by:" ++ String.join lines

/-- What comes of a run with the given settings. -/
def outcomeOf (settings : Settings) (disk : Files.Disk) : Outcome :=
  let done := (process settings).run.run disk
  let (result, disk) := done.value
  match result with
  | .ok () => { exitCode := 0, notices := done.notices, errorText := "", disk }
  | .error fault =>
    { exitCode := 1, notices := done.notices, errorText := failureText fault.chain, disk }

/-- What comes of the arguments of a command line. Arguments that yield
no settings end the run at once; to ask for the help or the version is
no failure. -/
def outcome (arguments : List String) (disk : Files.Disk) : Outcome :=
  match CommandLine.read arguments with
  | .error fault => { exitCode := fault.exitCode, notices := [], errorText := "", disk }
  | .ok settings => outcomeOf settings disk

end Program

end RouteDoc
