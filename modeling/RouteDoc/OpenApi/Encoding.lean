import RouteDoc.Json.Value
import RouteDoc.OpenApi.Document

/-!
# `RouteDoc.OpenApi.Encoding`: documents as JSON values

Every part of a document is an object with its fields in a fixed order.
An optional field that is left out has no member.
-/

set_option autoImplicit false

namespace RouteDoc.OpenApi

/-- The member of an optional field. -/
def optionalMember {α : Type} (key : String) (encode : α → Json) (field : Option α) :
    List (String × Json) :=
  match field with
  | none => []
  | some a => [(key, encode a)]

/-- The object with a member per pair of a map. -/
def encodeMap {α : Type} (encode : α → Json) (m : OrderedMap String α) : Json :=
  .object (m.entries.map fun (key, a) => (key, encode a))

/-- The array of some texts. -/
def encodeTexts (texts : List String) : Json := .array (texts.map .string)

/-- The general information as an object. -/
def Info.encode (info : Info) : Json :=
  .object ([("title", .string info.title)]
    ++ optionalMember "description" .string info.description
    ++ [("version", .string info.version)])

/-- A parameter as an object. -/
def ParameterItem.encode (p : ParameterItem) : Json :=
  .object ([("name", .string p.name), ("in", .string p.location), ("required", .bool p.required),
      ("type", .string p.type), ("description", .string p.description),
      ("operationId", .string p.operationId)]
    ++ optionalMember "default" .string p.default)

/-- A list of parameters as an array. -/
def encodeParameters (ps : List ParameterItem) : Json := .array (ps.map ParameterItem.encode)

/-- A response as an object. -/
def Response.encode (r : Response) : Json := .object [("description", .string r.description)]

/-- An operation as an object. -/
def Operation.encode (op : Operation) : Json :=
  .object ([("summary", .string op.summary), ("description", .string op.description),
      ("operationId", .string op.operationId), ("produces", encodeTexts op.produces)]
    ++ optionalMember "parameters" encodeParameters op.parameters
    ++ [("responses", encodeMap Response.encode op.responses)])

/-- A path item as an object. -/
def PathItem.encode (item : PathItem) : Json :=
  .object (optionalMember "get" Operation.encode item.get
    ++ optionalMember "post" Operation.encode item.post
    ++ optionalMember "put" Operation.encode item.put
    ++ optionalMember "delete" Operation.encode item.delete
    ++ optionalMember "parameters" encodeParameters item.parameters)

/-- A document as an object. -/
def Document.encode (d : Document) : Json :=
  .object [("swagger", .string d.swagger), ("host", .string d.host),
    ("basePath", .string d.basePath), ("produces", encodeTexts d.produces),
    ("info", d.info.encode), ("paths", encodeMap PathItem.encode d.paths)]

end RouteDoc.OpenApi
