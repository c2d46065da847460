import RouteDoc.Verb

/-!
# `RouteDoc.OpenApi.Finding`: what can be wrong with a document
-/

set_option autoImplicit false

namespace RouteDoc.OpenApi

/-- Something that is wrong with a document. -/
inductive Finding where
  /-- The host has no character but blanks. -/
  | emptyHost
  /-- A URL has no operation. -/
  | noOperations (url : String)
  /-- A placeholder of a URL has no path parameter. -/
  | undeclared (url name : String)
  /-- A path parameter has no placeholder in its URL. -/
  | notInTemplate (url name : String)
  /-- A path parameter may be left out. -/
  | notRequired (url name : String)
  /-- An identifier belongs to more than one operation. -/
  | sharedOperationId (id : String) (uses : List (Verb × String))
  deriving DecidableEq, Repr

namespace Finding

/-- A use of an identifier: the verb and the URL of an operation. -/
def useText (use : Verb × String) : String := use.1.token ++ " " ++ use.2

/-- The text for a finding. -/
def message : Finding → String
  | emptyHost => "'host' is empty"
  | noOperations url => url ++ ": path item has no operations"
  | undeclared url name => url ++ ": path parameter '" ++ name ++ "' is not declared"
  | notInTemplate url name =>
    url ++ ": parameter '" ++ name ++ "' is declared in path but missing from the template"
  | notRequired url name => url ++ ": path parameter '" ++ name ++ "' must be required"
  | sharedOperationId id uses =>
    "operationId '" ++ id ++ "' is used by " ++ String.intercalate ", " (uses.map useText)

end Finding

end RouteDoc.OpenApi
