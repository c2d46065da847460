import RouteDoc.Docblock.Fault
import RouteDoc.Files.Path
import RouteDoc.Format
import RouteDoc.OpenApi.Collision
import RouteDoc.OpenApi.Finding

/-!
# `RouteDoc.Notice`: what a run reports as it goes

Everything that is reported beside a result is a `Notice`. A notice is
a piece of information or a warning; `Notice.text` is the one place
where notices are worded. A result together with its notices is a
`Noted` value, and the notices of one step come before those of the
next.

* `value_bind`, `notices_bind`: what two steps in a row yield.
-/

set_option autoImplicit false

namespace RouteDoc

/-- How much a notice matters. -/
inductive Level where
  | info
  | warning
  deriving DecidableEq, Repr

/-- The label of a level in the log. -/
def Level.label : Level → String
  | info => "INFO"
  | warning => "WARN"

/-- Something that is reported. -/
inductive Notice where
  /-- A run begins. -/
  | started
  /-- The source directory of a run. -/
  | sourceDirectory (path : Files.Path)
  /-- The route dump of a run. -/
  | dumpFile (path : Files.Path)
  /-- The output directory of a run. -/
  | outputDirectory (path : Files.Path)
  /-- The server of a run. -/
  | server (host basePath : String)
  /-- The formats of a run. -/
  | formats (formats : List Format)
  /-- The extraction begins. -/
  | extracting
  /-- An extractor begins. -/
  | extractorStarted (name : String)
  /-- An extractor is done. -/
  | extractorFinished (name : String) (added total : Nat)
  /-- The files below a source directory. -/
  | filesFound (count : Nat) (extension : String) (directory : Files.Path)
  /-- A path at or below a source directory cannot be reached. -/
  | unreachable (path : Files.Path) (fault : Files.AccessFault)
  /-- A source file cannot be read. -/
  | unreadable (path : Files.Path) (fault : Files.ReadFault)
  /-- A marker is not closed. It starts at the given byte. -/
  | unterminated (offset : Nat)
  /-- A marker has a metadata block that cannot be read. -/
  | skippedMarker (fault : Docblock.Fault) (arguments : String)
  /-- The reading of a route dump begins. -/
  | readingDump (path : Files.Path)
  /-- The route dump is not there. -/
  | dumpMissing (path : Files.Path)
  /-- An entry of a dump is not an object. -/
  | entryNotAnObject (name : String)
  /-- An entry of a dump has no path. -/
  | entryWithoutPath (name : String)
  /-- An entry of a dump names a method that is not supported. -/
  | unsupportedMethod (token : String)
  /-- An entry of a dump adds a route. -/
  | routeAdded (name url : String)
  /-- There is nothing to write. -/
  | noRoutes
  /-- An operation is declared more than once. -/
  | collision (collision : OpenApi.Collision)
  /-- A document is written. -/
  | writingDocument (path : Files.Path)
  /-- A document is checked. -/
  | checkingDocument
  /-- A document has passed the check. -/
  | documentPassed
  /-- A document has not passed the check. -/
  | documentFailed
  /-- Why a document has not passed. -/
  | finding (finding : OpenApi.Finding)
  /-- The extraction is over. -/
  | extracted
  /-- A summary follows. -/
  | summary
  /-- The number of routes. -/
  | routeCount (count : Nat)
  /-- A file that was written. -/
  | written (path : Files.Path)
  /-- A run has ended well. -/
  | finished
  deriving DecidableEq, Repr

namespace Notice

/-- The level of a notice. -/
def level : Notice → Level
  | unreachable .. | unreadable .. | unterminated .. | skippedMarker .. | dumpMissing ..
  | entryNotAnObject .. | entryWithoutPath .. | unsupportedMethod .. | noRoutes
  | collision .. | documentFailed | finding .. => .warning
  | _ => .info

/-- The text of a notice. -/
def text : Notice → String
  | started => "Route extractor starting..."
  | sourceDirectory path => "Source directory: " ++ path.shown
  | dumpFile path => "Symfony route dump: " ++ path.shown
  | outputDirectory path => "Output directory: " ++ path.shown
  | server host basePath => "Host: " ++ host ++ ", base path: " ++ basePath
  | formats fs => "Formats: [" ++ String.intercalate ", " (fs.map Format.label) ++ "]"
  | extracting => "Starting route extraction..."
  | extractorStarted name => "Running extractor: " ++ name
  | extractorFinished name added total =>
    "Extractor " ++ name ++ " finished, " ++ toString added ++ " new routes ("
      ++ toString total ++ " total)"
  | filesFound count extension directory =>
    "Found " ++ toString count ++ " ." ++ extension ++ " files in " ++ directory.shown
  | unreachable path fault =>
    "Failed to access path: IO error for operation on " ++ path.shown ++ ": " ++ fault.message
  | unreadable path fault => "Failed to read file " ++ path.shown ++ ": " ++ fault.message
  | unterminated offset => "Unterminated @Route annotation at byte " ++ toString offset
  | skippedMarker fault arguments =>
    "Skipping @Route annotation (" ++ fault.message ++ "): " ++ arguments
  | readingDump path => "Parse symfony route dump: " ++ path.shown
  | dumpMissing path => "Symfony route dump doesn't exist: " ++ path.shown
  | entryNotAnObject name => "Skipping route '" ++ name ++ "': descriptor is not an object"
  | entryWithoutPath name => "Skipping route '" ++ name ++ "': no path"
  | unsupportedMethod token => "Unsupported HTTP method '" ++ token ++ "' skipped"
  | routeAdded name url => "Add new route: " ++ name ++ ", url: " ++ url
  | noRoutes => "No routes found"
  | collision c => c.message
  | writingDocument path => "Write swagger specification: " ++ path.shown
  | checkingDocument => "Validate swagger file..."
  | documentPassed => "Swagger validation succeeded"
  | documentFailed => "Validation warnings occurred:"
  | finding f => "  " ++ f.message
  | extracted => "Extraction complete!"
  | summary => "Summary:"
  | routeCount count => "  - Routes found: " ++ toString count
  | written path => "  - Written: " ++ path.shown
  | finished => "Route extraction finished successfully"

/-- Whether a notice is a warning. -/
def isWarning (n : Notice) : Bool := n.level == .warning

end Notice

/-- A result together with the notices of the steps that led to it. -/
structure Noted (α : Type) where
  /-- The result. -/
  value : α
  /-- The notices, in order. -/
  notices : List Notice
  deriving DecidableEq, Repr

namespace Noted

variable {α β : Type}

/-- A result without notices. -/
protected def pure (a : α) : Noted α := ⟨a, []⟩

/-- One step after another. -/
protected def bind (x : Noted α) (f : α → Noted β) : Noted β :=
  ⟨(f x.value).value, x.notices ++ (f x.value).notices⟩

instance : Monad Noted where
  pure := Noted.pure
  bind := Noted.bind

/-- A notice by itself. -/
def note (n : Notice) : Noted Unit := ⟨(), [n]⟩

/-- A list of notices by itself. -/
def noteAll (ns : List Notice) : Noted Unit := ⟨(), ns⟩

/-- The texts of the warnings, in order. -/
def warnings (x : Noted α) : List String :=
  (x.notices.filter Notice.isWarning).map Notice.text

/-- A result without notices is the result. -/
@[simp] theorem value_pure (a : α) : (pure a : Noted α).value = a := rfl

/-- It has no notices. -/
@[simp] theorem notices_pure (a : α) : (pure a : Noted α).notices = [] := rfl

/-- The result of two steps is that of the second on that of the
first. -/
@[simp] theorem value_bind (x : Noted α) (f : α → Noted β) :
    (x >>= f).value = (f x.value).value := rfl

/-- The notices of the first step come before those of the second. -/
@[simp] theorem notices_bind (x : Noted α) (f : α → Noted β) :
    (x >>= f).notices = x.notices ++ (f x.value).notices := rfl

instance : LawfulMonad Noted :=
  LawfulMonad.mk' Noted
    (by intro α x; cases x; simp [Functor.map, Noted.bind, Noted.pure])
    (by intro α β a f; simp [pure, bind, Noted.pure, Noted.bind])
    (by intro α β γ x f g; simp [bind, Noted.bind, List.append_assoc])

end Noted

end RouteDoc
