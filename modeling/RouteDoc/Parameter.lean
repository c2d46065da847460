/-!
# `RouteDoc.Parameter`: the parameters of a request

A parameter has a name, a place in the request where its value is
carried, a declared type and, if it has one, a default literal.
-/

set_option autoImplicit false

namespace RouteDoc

/-- Where in a request the value of a parameter is carried. -/
inductive Location where
  | query
  | path
  | header
  | form
  deriving DecidableEq, Repr

/-- The name of a location in a document. -/
def Location.label : Location → String
  | query => "query"
  | path => "path"
  | header => "header"
  | form => "formData"

/-- The type of a parameter as it is declared unless something says
that it is a number. -/
def textType : String := "string"

/-- The type of a parameter that holds a whole number. -/
def integerType : String := "integer"

/-- A parameter of a request. -/
structure Parameter where
  /-- The name, as it stands in the placeholder or the form. -/
  name : String
  /-- Where the value is carried. -/
  location : Location
  /-- Whether a request must give a value. -/
  required : Bool
  /-- The declared type. -/
  type : String
  /-- The default literal; the empty text stands for none. -/
  default : String
  deriving DecidableEq, Repr

namespace Parameter

/-- Whether the parameter has a default literal. -/
def hasDefault (p : Parameter) : Bool := !p.default.isEmpty

/-- Whether the value is carried in the path. -/
def inPath (p : Parameter) : Bool := p.location == .path

/-- The default literal, if there is one. -/
def default? (p : Parameter) : Option String :=
  if p.hasDefault then some p.default else none

/-- A required parameter that is a placeholder of the path. -/
def ofPlaceholder (name type : String) : Parameter :=
  { name, location := .path, required := true, type, default := "" }

end Parameter

end RouteDoc
