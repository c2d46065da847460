import RouteDoc.Files.Disk
import RouteDoc.Json.Printer
import RouteDoc.Listing
import RouteDoc.OpenApi.Builder
import RouteDoc.OpenApi.Encoding
import RouteDoc.OpenApi.Validation
import RouteDoc.Yaml.Printer

/-!
# `RouteDoc.Output`: writing routes to files

An output is a file with a list of routes in some format. The directory
of the file is made if it is missing. A document is checked once it has
been written, whatever the check may find.

* `fileName_none`: without a given name every format has its own.
* `fileName_injective`: of several formats no two share a file name.
-/

set_option autoImplicit false

namespace RouteDoc

/-- Why an output cannot be written. -/
inductive OutputFault where
  /-- The directory of the file cannot be made. -/
  | directory (path : Files.Path) (fault : Files.AccessFault)
  /-- The file cannot be written. -/
  | file (path : Files.Path) (fault : Files.AccessFault)
  deriving DecidableEq, Repr

/-- The texts for a fault and for what lies behind it, outermost
first. -/
def OutputFault.chain : OutputFault → List String
  | directory path fault => ["Failed to create directory: " ++ path.shown, fault.message]
  | file path fault => ["Failed to write to file: " ++ path.shown, fault.message]

/-- A step that works on a disk, gives notices and may fail. What it
has done before it fails stays done. -/
abbrev DiskStep (ε : Type) := ExceptT ε (StateT Files.Disk Noted)

namespace DiskStep

variable {ε : Type}

/-- A list of notices by itself. -/
def noteAll (ns : List Notice) : DiskStep ε Unit := (Noted.noteAll ns : Noted Unit)

/-- A notice by itself. -/
def note (n : Notice) : DiskStep ε Unit := noteAll [n]

/-- Works on the disk, and fails with what `fault` makes of an access
fault. -/
def change (fault : Files.AccessFault → ε)
    (f : Files.Disk → Except Files.AccessFault Files.Disk) : DiskStep ε Unit := do
  match f (← get) with
  | .ok disk => set disk
  | .error e => throw (fault e)

end DiskStep

namespace Output

/-- The name of a file in a format. A given name is taken as it is if
there is one format only; of several, each puts its extension behind
the stem of the name. -/
def fileName (format : Format) (name : Option String) (several : Bool) : String :=
  match name with
  | none => format.defaultFileName
  | some name =>
    if several then
      let stem := (Files.Path.fileStem? (Text.bytes name)).map Text.shown
      stem.getD name ++ format.fileExtension
    else name

/-- Without a given name every format has its own. -/
theorem fileName_none (format : Format) (several : Bool) :
    fileName format none several = format.defaultFileName := rfl

/-- Of several formats, no two share a file name. -/
theorem fileName_injective {f g : Format} {name : Option String}
    (h : fileName f name true = fileName g name true) : f = g := by
  cases name with
  | none => revert h; cases f <;> cases g <;> decide
  | some name =>
    simp only [fileName, if_true] at h
    exact Format.fileExtension_injective (String.append_right_inj _ |>.1 h)

/-- Saves a text as a file, in a directory that is made if need be. -/
def save (path : Files.Path) (content : String) : DiskStep OutputFault Unit := do
  match Files.Path.parent? path with
  | some parent => DiskStep.change (.directory parent) (·.makeDirectories parent)
  | none => pure ()
  DiskStep.change (.file path) (·.writeFile path content.toUTF8)

/-- What a file in a format holds. Only a document has a use for the
server. -/
def content (format : Format) (routes : List Route) (host basePath : String) : String :=
  match format with
  | .openApi => (OpenApi.documentOf routes host basePath).value.encode.pretty
  | .openApiYaml => Yaml.render (OpenApi.documentOf routes host basePath).value.encode
  | .csv => Listing.csv routes
  | .text => Listing.urlList routes

/-- The notices on a file that is about to be written: for a document,
what collides in it. -/
def openingNotices (format : Format) (routes : List Route) (host basePath : String)
    (path : Files.Path) : List Notice :=
  if format.isDocument then
    (OpenApi.documentOf routes host basePath).notices ++ [.writingDocument path]
  else []

/-- The notices on what the check of a document has found. -/
def checkNotices (d : OpenApi.Document) : List Notice :=
  match OpenApi.findings d with
  | [] => [.documentPassed]
  | fs => .documentFailed :: fs.map .finding

/-- The notices on a file that has been written: for a document, the
result of its check. The check of a document in JSON is announced. -/
def closingNotices (format : Format) (routes : List Route) (host basePath : String) :
    List Notice :=
  if format.isDocument then
    (if format = .openApi then [.checkingDocument] else [])
      ++ checkNotices (OpenApi.documentOf routes host basePath).value
  else []

/-- Writes routes to a file. -/
def write (format : Format) (routes : List Route) (host basePath : String)
    (path : Files.Path) : DiskStep OutputFault Unit := do
  DiskStep.noteAll (openingNotices format routes host basePath path)
  save path (content format routes host basePath)
  DiskStep.noteAll (closingNotices format routes host basePath)

end Output

end RouteDoc
