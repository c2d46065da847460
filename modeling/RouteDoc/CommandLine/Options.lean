import RouteDoc.Extraction
import RouteDoc.Format
import RouteDoc.OpenApi.Builder

/-!
# `RouteDoc.CommandLine.Options`: the options of the command line

Each option has a letter and a name. Most take a value; the rest are
switches. Only the option for the format may be repeated.

* `ofLetter?_letter`, `ofName?_name`: an option is found under its
  letter and under its name.
-/

set_option autoImplicit false

namespace RouteDoc.CommandLine

/-- An option. -/
inductive Opt where
  | source
  | dump
  | output
  | fileName
  | host
  | basePath
  | format
  | extension
  | verbose
  | help
  | version
  deriving DecidableEq, Repr

namespace Opt

/-- Every option. -/
def all : List Opt :=
  [source, dump, output, fileName, host, basePath, format, extension, verbose, help, version]

/-- The letter of an option, behind one dash. -/
def letter : Opt → Char
  | source => 's'
  | dump => 'j'
  | output => 'o'
  | fileName => 'f'
  | host => 'H'
  | basePath => 'b'
  | format => 'F'
  | extension => 'e'
  | verbose => 'v'
  | help => 'h'
  | version => 'V'

/-- The name of an option, behind two dashes. -/
def name : Opt → String
  | source => "src"
  | dump => "symfony-json"
  | output => "output"
  | fileName => "filename"
  | host => "host"
  | basePath => "base-path"
  | format => "format"
  | extension => "extension"
  | verbose => "verbose"
  | help => "help"
  | version => "version"

/-- The option with the given letter. -/
def ofLetter? (c : Char) : Option Opt := all.find? fun o => o.letter = c

/-- The option with the given name. -/
def ofName? (s : String) : Option Opt := all.find? fun o => o.name = s

/-- An option is found under its letter. -/
theorem ofLetter?_letter (o : Opt) : ofLetter? o.letter = some o := by
  cases o <;> decide

/-- An option is found under its name. -/
theorem ofName?_name (o : Opt) : ofName? o.name = some o := by
  cases o <;> decide

/-- Whether an option takes a value. -/
def takesValue : Opt → Bool
  | verbose | help | version => false
  | _ => true

/-- Whether an option may come more than once. -/
def isRepeatable : Opt → Bool
  | format => true
  | _ => false

/-- Whether an option takes this value: a path must not be empty, and a
format must have one of the known names. -/
def accepts (o : Opt) (value : String) : Bool :=
  match o with
  | source | dump | output => value != ""
  | format => (Format.ofName? value).isSome
  | _ => true

/-- What an option is for. -/
def purpose : Opt → String
  | source => "directory with source files to read routes from"
  | dump => "JSON dump to read routes from"
  | output => "directory to write to"
  | fileName => "name of the output"
  | host => "host of the document"
  | basePath => "base path of the document"
  | format => "format of the output, one of "
    ++ String.intercalate ", " (Format.all.map Format.name) ++ "; may be repeated"
  | extension => "extension of source files"
  | verbose => "report more"
  | help => "show this text"
  | version => "show the version"

/-- The line on an option in the help. -/
def helpLine (o : Opt) : String :=
  "  -" ++ o.letter.toString ++ ", --" ++ o.name ++ ": " ++ o.purpose ++ "\n"

end Opt

/-- What is shown if the help is asked for. -/
def helpText : String := "Options:\n" ++ String.join (Opt.all.map Opt.helpLine)

/-- What is shown if the version is asked for. -/
def versionText : String := "0.1.0\n"

/-- What the command line asks for. -/
structure Settings where
  /-- The source directory. -/
  source : Option Files.Path
  /-- The route dump. -/
  dump : Option Files.Path
  /-- The output directory. -/
  output : Files.Path
  /-- The name of the output. -/
  fileName : Option String
  host : String
  basePath : String
  /-- The extension of source files. -/
  extension : String
  /-- Whether more is reported. -/
  verbose : Bool
  formats : List Format
  deriving DecidableEq, Repr

/-- Where the routes are looked for. -/
def Settings.sources (s : Settings) : Sources :=
  { directory := s.source, dump := s.dump, extension := s.extension }

end RouteDoc.CommandLine
