import RouteDoc.OrderedMap
import RouteDoc.Parameter
import RouteDoc.Verb

/-!
# `RouteDoc.OpenApi.Document`: documents of OpenAPI 2.0

The part of OpenAPI 2.0 that describes routes. Paths and responses keep
their order. An optional field is either left out or there; a list of
parameters that is there may still be empty.

* `setOperation_self`, `setOperation_of_ne`: an operation is found under
  its verb only.
-/

set_option autoImplicit false

namespace RouteDoc.OpenApi

/-- The general information on an interface. -/
structure Info where
  title : String
  description : Option String
  version : String
  deriving DecidableEq, Repr

/-- A parameter in a document. -/
structure ParameterItem where
  name : String
  /-- The name of the location. -/
  location : String
  required : Bool
  type : String
  description : String
  operationId : String
  default : Option String
  deriving DecidableEq, Repr

/-- What an operation answers. -/
structure Response where
  description : String
  deriving DecidableEq, Repr

/-- An operation: a verb of a URL. -/
structure Operation where
  summary : String
  description : String
  operationId : String
  produces : List String
  parameters : Option (List ParameterItem)
  responses : OrderedMap String Response
  deriving DecidableEq, Repr

/-- The operations of a URL, with the parameters that they share. -/
structure PathItem where
  get : Option Operation
  post : Option Operation
  put : Option Operation
  delete : Option Operation
  parameters : Option (List ParameterItem)
  deriving DecidableEq, Repr

/-- A document. -/
structure Document where
  /-- The version of the specification. -/
  swagger : String
  host : String
  basePath : String
  produces : List String
  info : Info
  paths : OrderedMap String PathItem
  deriving DecidableEq, Repr

/-- The parameter as it stands in a document. Its description and its
identifier are its name. -/
def ParameterItem.ofParameter (p : Parameter) : ParameterItem where
  name := p.name
  location := p.location.label
  required := p.required
  type := p.type
  description := p.name
  operationId := p.name
  default := p.default?

/-- Whether the value is carried in the path. -/
def ParameterItem.inPath (p : ParameterItem) : Bool := p.location = Location.path.label

namespace PathItem

/-- The item without operations. -/
def empty : PathItem :=
  { get := none, post := none, put := none, delete := none, parameters := none }

/-- The operation of a verb. -/
def operation? (item : PathItem) : Verb → Option Operation
  | .get => item.get
  | .post => item.post
  | .put => item.put
  | .delete => item.delete

/-- The item with an operation for a verb. -/
def setOperation (item : PathItem) (verb : Verb) (op : Operation) : PathItem :=
  match verb with
  | .get => { item with get := some op }
  | .post => { item with post := some op }
  | .put => { item with put := some op }
  | .delete => { item with delete := some op }

/-- The operations that are there, in the order of the verbs. -/
def operations (item : PathItem) : List (Verb × Operation) :=
  Verb.all.filterMap fun verb => (item.operation? verb).map fun op => (verb, op)

/-- An operation is found under its verb. -/
@[simp] theorem setOperation_self (item : PathItem) (verb : Verb) (op : Operation) :
    (item.setOperation verb op).operation? verb = some op := by
  cases verb <;> rfl

/-- An operation is found under no other verb. -/
theorem setOperation_of_ne (item : PathItem) {verb other : Verb} (op : Operation)
    (h : other ≠ verb) : (item.setOperation verb op).operation? other = item.operation? other := by
  cases verb <;> cases other <;> simp_all [setOperation, operation?]

end PathItem

end RouteDoc.OpenApi
