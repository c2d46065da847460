import RouteDoc.Dump.Entry
import RouteDoc.Dump.Fault
import RouteDoc.Files.Disk
import RouteDoc.Json.Parser
import RouteDoc.RouteSet

/-!
# `RouteDoc.Dump.Import`: a route dump goes into the set of routes

A dump is a JSON object with an entry per route. Each entry updates the
first route of its name, or appends one.

* `importEntries_cons`: the entries are taken in order.
-/

set_option autoImplicit false

namespace RouteDoc.Dump

/-- The set after one entry. -/
def importEntry (s : RouteSet) (name : String) (description : Json) : Noted RouteSet := do
  match ← Entry.read name description with
  | none => return s
  | some entry =>
    Noted.noteAll (s.updateNotices entry.url name)
    return s.updateByName entry.url name entry.apply

/-- The set after the entries of a dump. -/
def importEntries (s : RouteSet) : List (String × Json) → Noted RouteSet
  | [] => pure s
  | (name, description) :: entries => do
    importEntries (← importEntry s name description) entries

/-- The entries of a dump with the given text. The path is that of the
file, for the messages. -/
def entries? (path : Files.Path) (text : String) : Except Fault (List (String × Json)) :=
  match Json.parse text.toList with
  | none => .error (.notJson path)
  | some (.object entries) => .ok entries
  | some _ => .error (.notAnObject path)

/-- A step that works on the set of routes, gives notices and may fail.
What it has done before it fails stays done. -/
abbrev SetStep := ExceptT Fault (StateT RouteSet Noted)

/-- Imports the entries of a dump in a file into the set. A file that is
not there is reported and has no entries. -/
def importInto (disk : Files.Disk) (path : Files.Path) : SetStep Unit := do
  (Noted.note (.readingDump path) : Noted Unit)
  if disk.pathExists path then
    match disk.readText path with
    | .error fault => throw (.unreadable fault)
    | .ok text =>
      match entries? path text with
      | .error fault => throw fault
      | .ok entries => set (← (importEntries (← get) entries : Noted RouteSet))
  else
    (Noted.note (.dumpMissing path) : Noted Unit)

/-- The set after the entries of a dump in a file, where a set is of no
use unless the dump can be read. -/
def importFile (disk : Files.Disk) (path : Files.Path) (s : RouteSet) :
    ExceptT Fault Noted RouteSet := ExceptT.mk do
  let (result, s) ← (importInto disk path).run.run s
  return result.map fun () => s

/-- The entries are taken in order. -/
theorem importEntries_cons (s : RouteSet) (name : String) (description : Json)
    (entries : List (String × Json)) :
    (importEntries s ((name, description) :: entries)).value
      = (importEntries (importEntry s name description).value entries).value :=
  rfl

end RouteDoc.Dump
