import RouteDoc.CommandLine.Options
import RouteDoc.Text.Search

/-!
# `RouteDoc.CommandLine.Parser`: reading the command line

The arguments are read from left to right. The value of an option is
attached to it (`-oX`, `-o=X`, `--output=X`) or is the next argument.
Switches may be written together behind one dash, and an option that
takes a value may come last of them. An argument that starts with a
dash, other than the dash itself, is never a value. Nothing else is
expected, so every other argument is unknown.

A value that is an argument of its own is looked at only when the next
option has been recognised, or at the end. An unknown argument is
therefore reported before a bad value in front of it.

* `read_nil`: an empty command line lacks the output directory.
-/

set_option autoImplicit false

namespace RouteDoc.CommandLine

open RouteDoc.Text

/-- Why a command line yields no settings. -/
inductive UsageFault where
  /-- The help was asked for. -/
  | displayHelp
  /-- The version was asked for. -/
  | displayVersion
  /-- The output directory is missing. -/
  | missingArgument
  /-- An argument is unknown. -/
  | unknownArgument
  /-- A value is missing or bad. -/
  | invalidValue
  /-- An option that may come once comes twice. -/
  | repeatedOption
  /-- A switch has a value. -/
  | unwantedValue
  deriving DecidableEq, Repr

namespace UsageFault

/-- Whether the fault is only that something was asked for that ends
the run. -/
def isRequest (fault : UsageFault) : Bool := fault = displayHelp || fault = displayVersion

/-- The exit code of a run that ends with a fault. -/
def exitCode (fault : UsageFault) : Nat := if fault.isRequest then 0 else 2

/-- What is shown for a fault. -/
def text : UsageFault → String
  | displayHelp => helpText
  | displayVersion => versionText
  | missingArgument => "The output directory is missing\n"
  | unknownArgument => "An argument is unknown\n"
  | invalidValue => "The value of an option is missing or bad\n"
  | repeatedOption => "An option is repeated\n"
  | unwantedValue => "A value is given to an option that takes none\n"

end UsageFault

/-- What has been read so far. -/
structure Reading where
  /-- The options that are complete, in order; a switch has an empty
  value. -/
  given : List (Opt × String)
  /-- An option that was read, and its value if it has come. -/
  pending : Option (Opt × Option String)
  deriving DecidableEq, Repr

namespace Reading

/-- Nothing. -/
def start : Reading := { given := [], pending := none }

/-- Completes an option with its value. -/
def complete (r : Reading) (o : Opt) (value : String) : Except UsageFault Reading :=
  if !o.isRepeatable && (r.given.map Prod.fst).contains o then .error .repeatedOption
  else if !o.accepts value then .error .invalidValue
  else .ok { r with given := r.given ++ [(o, value)] }

/-- Completes the pending option. -/
def settle (r : Reading) : Except UsageFault Reading :=
  match r.pending with
  | none => .ok r
  | some (_, none) => .error .invalidValue
  | some (o, some value) => { r with pending := none }.complete o value

/-- Reads a switch. -/
def switch (r : Reading) (o : Opt) : Except UsageFault Reading := do
  let r ← r.settle
  match o with
  | .help => .error .displayHelp
  | .version => .error .displayVersion
  | o => r.complete o ""

/-- Reads an option that takes a value, with the value if it is
attached. -/
def option (r : Reading) (o : Opt) (attached : Option String) : Except UsageFault Reading := do
  let r ← r.settle
  match attached with
  | some value => r.complete o value
  | none => return { r with pending := some (o, none) }

/-- Reads an argument behind two dashes. -/
def long (r : Reading) (text : List Char) : Except UsageFault Reading :=
  let (name, attached) := match splitOnce '=' text with
    | some (name, value) => (name, some (String.ofList value))
    | none => (text, none)
  match Opt.ofName? (String.ofList name) with
  | none => .error .unknownArgument
  | some o =>
    if o.takesValue then r.option o attached
    else if attached.isSome then .error .unwantedValue
    else r.switch o

/-- Reads the letters behind one dash. -/
def letters (r : Reading) : List Char → Except UsageFault Reading
  | [] => .ok r
  | c :: text =>
    match Opt.ofLetter? c with
    | none => .error .unknownArgument
    | some o =>
      if o.takesValue then
        match text with
        | [] => r.option o none
        | '=' :: value => r.option o (some (String.ofList value))
        | value => r.option o (some (String.ofList value))
      else do
        let r ← r.switch o
        r.letters text

/-- Reads an argument without a dash: the value of the pending
option. -/
def plain (r : Reading) (text : String) : Except UsageFault Reading :=
  match r.pending with
  | some (o, none) => .ok { r with pending := some (o, some text) }
  | _ => .error .unknownArgument

/-- Reads the arguments. Behind two dashes alone there is nothing to
read. -/
def arguments (r : Reading) : List String → Except UsageFault Reading
  | [] => r.settle
  | argument :: rest =>
    match argument.toList with
    | ['-', '-'] => if rest.isEmpty then r.settle else .error .unknownArgument
    | '-' :: '-' :: text => do (← r.long text).arguments rest
    | '-' :: c :: text => do (← r.letters (c :: text)).arguments rest
    | _ => do (← r.plain argument).arguments rest

/-- The value of an option. -/
def value? (r : Reading) (o : Opt) : Option String :=
  (r.given.find? fun given => given.1 = o).map Prod.snd

/-- The formats, in order; one is assumed if none is given. -/
def formats (r : Reading) : List Format :=
  let named := r.given.filter fun given => given.1 = .format
  if named.isEmpty then [.openApi] else named.filterMap fun given => Format.ofName? given.2

end Reading

/-- The settings of a command line. -/
def read (arguments : List String) : Except UsageFault Settings := do
  let r ← Reading.start.arguments arguments
  match r.value? .output with
  | none => .error .missingArgument
  | some output =>
    return { source := (r.value? .source).map Text.bytes
             dump := (r.value? .dump).map Text.bytes
             output := Text.bytes output
             fileName := r.value? .fileName
             host := (r.value? .host).getD OpenApi.defaultHost
             basePath := (r.value? .basePath).getD OpenApi.defaultBasePath
             extension := (r.value? .extension).getD defaultExtension
             verbose := (r.value? .verbose).isSome
             formats := r.formats }

/-- An empty command line lacks the output directory. -/
theorem read_nil : read [] = .error .missingArgument := rfl

end RouteDoc.CommandLine
