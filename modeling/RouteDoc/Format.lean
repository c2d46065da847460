/-!
# `RouteDoc.Format`: the formats of the output

Each format has a name on the command line, a label in the log, an
extension and a file name of its own.

* `ofName?_name`: a format is read back from its name.
-/

set_option autoImplicit false

namespace RouteDoc

/-- A format in which routes are written to a file. -/
inductive Format where
  /-- An OpenAPI 2.0 document as JSON. -/
  | openApi
  /-- An OpenAPI 2.0 document as YAML. -/
  | openApiYaml
  /-- A listing with one line per route and its fields between
  semicolons. -/
  | csv
  /-- A list of URLs. -/
  | text
  deriving DecidableEq, Repr

namespace Format

/-- Every format. -/
def all : List Format := [openApi, openApiYaml, csv, text]

/-- The name of a format on the command line and in messages. -/
def name : Format → String
  | openApi => "openapi"
  | openApiYaml => "openapi-yaml"
  | csv => "csv"
  | text => "text"

/-- The label of a format in the list of formats that is logged. -/
def label : Format → String
  | openApi => "Openapi"
  | openApiYaml => "OpenapiYaml"
  | csv => "Csv"
  | text => "Text"

/-- The extension of a file in a format, with its dot. -/
def fileExtension : Format → String
  | openApi => ".json"
  | openApiYaml => ".yaml"
  | csv => ".csv"
  | text => ".txt"

/-- The file name of a format when none is given. -/
def defaultFileName : Format → String
  | openApi => "result.json"
  | openApiYaml => "result.yaml"
  | csv => "routes.csv"
  | text => "routes.txt"

/-- Whether a format is one of the two for documents. -/
def isDocument : Format → Bool
  | openApi | openApiYaml => true
  | csv | text => false

/-- The format with the given name. Case matters. -/
def ofName? (s : String) : Option Format := all.find? fun f => f.name = s

/-- A format is read back from its name. -/
theorem ofName?_name (f : Format) : ofName? f.name = some f := by
  cases f <;> decide

/-- Two formats have different extensions. -/
theorem fileExtension_injective {f g : Format} (h : f.fileExtension = g.fileExtension) :
    f = g := by
  revert h
  cases f <;> cases g <;> decide

end Format

end RouteDoc
