import RouteDoc.Json.Form
import RouteDoc.Json.Parser
import RouteDoc.OpenApi.Document

/-!
# `RouteDoc.OpenApi.Decoding`: documents from the form of a JSON text

A part of a document with named fields may be written in two ways: as
an object, whose fields may stand in any order, or as an array of all
the fields in their own order. Of an object, members that are no field
are skipped with only their form checked, and a field must not come
twice. A field that is optional may be missing or null.

The keys of a map are free; a repeated one keeps its first place and
takes its last value.

* `namedFields?_array`: an array has to have a value for each field.
-/

set_option autoImplicit false

namespace RouteDoc.OpenApi

open RouteDoc.Json

variable {α : Type}

/-! ### Parts of a form -/

/-- A text. -/
def decodeText : Form → Option String
  | .string text => text
  | _ => none

/-- A truth value. -/
def decodeBool : Form → Option Bool
  | .bool b => some b
  | _ => none

/-- A list of what `decode` reads. -/
def decodeList (decode : Form → Option α) : Form → Option (List α)
  | .array items => items.mapM decode
  | _ => none

/-- The members of an object, whose keys all have a text. -/
def members? : Form → Option (List (String × Form))
  | .object members => members.mapM fun (key, form) => key.map fun key => (key, form)
  | _ => none

/-- A map to what `decode` reads. -/
def decodeMap (decode : Form → Option α) (form : Form) : Option (OrderedMap String α) := do
  let members ← members? form
  let pairs ← members.mapM fun (key, form) => (decode form).map fun a => (key, a)
  return OrderedMap.ofList pairs

/-- The members with the given key: none, one, or too many. -/
def theMember? (members : List (String × Form)) (key : String) : Option (Option Form) :=
  match members.filter fun member => member.1 = key with
  | [] => some none
  | [member] => some (some member.2)
  | _ => none

/-- The values of the fields with the given names, in order; a field of
an object may be missing. -/
def namedFields? (names : List String) (form : Form) : Option (List (Option Form)) :=
  match form with
  | .array items => if items.length = names.length then some (items.map some) else none
  | form => (members? form).bind fun members => names.mapM (theMember? members)

/-- An array has to have a value for each field. -/
theorem namedFields?_array {names : List String} {items : List Form}
    (h : items.length ≠ names.length) : namedFields? names (.array items) = none := by
  simp [namedFields?, h]

/-- A field that must be there. -/
def mandatory (decode : Form → Option α) (field : Option Form) : Option α := field.bind decode

/-- A field that may be missing or null. -/
def optional (decode : Form → Option α) : Option Form → Option (Option α)
  | none => some none
  | some .null => some none
  | some form => (decode form).map some

/-! ### Parts of a document -/

/-- The general information. -/
def Info.decode (form : Form) : Option Info := do
  match ← namedFields? ["title", "description", "version"] form with
  | [title, description, version] =>
    return { title := ← mandatory decodeText title
             description := ← optional decodeText description
             version := ← mandatory decodeText version }
  | _ => none

/-- A parameter. -/
def ParameterItem.decode (form : Form) : Option ParameterItem := do
  match ← namedFields?
      ["name", "in", "required", "type", "description", "operationId", "default"] form with
  | [name, location, isRequired, type, description, operationId, default] =>
    return { name := ← mandatory decodeText name
             location := ← mandatory decodeText location
             required := ← mandatory decodeBool isRequired
             type := ← mandatory decodeText type
             description := ← mandatory decodeText description
             operationId := ← mandatory decodeText operationId
             default := ← optional decodeText default }
  | _ => none

/-- A response. -/
def Response.decode (form : Form) : Option Response := do
  match ← namedFields? ["description"] form with
  | [description] => return { description := ← mandatory decodeText description }
  | _ => none

/-- An operation. -/
def Operation.decode (form : Form) : Option Operation := do
  match ← namedFields?
      ["summary", "description", "operationId", "produces", "parameters", "responses"] form with
  | [summary, description, operationId, produces, parameters, responses] =>
    return { summary := ← mandatory decodeText summary
             description := ← mandatory decodeText description
             operationId := ← mandatory decodeText operationId
             produces := ← mandatory (decodeList decodeText) produces
             parameters := ← optional (decodeList ParameterItem.decode) parameters
             responses := ← mandatory (decodeMap Response.decode) responses }
  | _ => none

/-- A path item. -/
def PathItem.decode (form : Form) : Option PathItem := do
  match ← namedFields? ["get", "post", "put", "delete", "parameters"] form with
  | [get, post, put, delete, parameters] =>
    return { get := ← optional Operation.decode get
             post := ← optional Operation.decode post
             put := ← optional Operation.decode put
             delete := ← optional Operation.decode delete
             parameters := ← optional (decodeList ParameterItem.decode) parameters }
  | _ => none

/-- A document. -/
def Document.decode (form : Form) : Option Document := do
  match ← namedFields? ["swagger", "host", "basePath", "produces", "info", "paths"] form with
  | [swagger, host, basePath, produces, info, paths] =>
    return { swagger := ← mandatory decodeText swagger
             host := ← mandatory decodeText host
             basePath := ← mandatory decodeText basePath
             produces := ← mandatory (decodeList decodeText) produces
             info := ← mandatory Info.decode info
             paths := ← mandatory (decodeMap PathItem.decode) paths }
  | _ => none

/-- The document that a JSON text describes. -/
def Document.parse (text : String) : Option Document :=
  (parseForm text.toList).bind Document.decode

end RouteDoc.OpenApi
