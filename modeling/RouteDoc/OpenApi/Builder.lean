import RouteDoc.Notice
import RouteDoc.OpenApi.Document
import RouteDoc.Placeholder
import RouteDoc.Route

/-!
# `RouteDoc.OpenApi.Builder`: the document of a list of routes

Routes go into a document one by one. Routes of one URL share a path
item. If two of them declare one verb, the later operation takes the
place of the earlier one, which is recorded as a collision.

Path parameters stand at the path item and come from the first verb of
the first route that has one; all other parameters stand at the
operation.

* `collisions_build`: the document does not depend on what collided.
-/

set_option autoImplicit false

namespace RouteDoc.OpenApi

/-- A document under construction. -/
structure Builder where
  info : Info
  host : String
  basePath : String
  /-- The path items, in the order in which their URLs first came. -/
  paths : OrderedMap String PathItem
  /-- The name of the route whose operation stands at a URL under a
  verb. -/
  owners : OrderedMap (String × Verb) String
  /-- The operations that were replaced, in order. -/
  collisions : List Collision
  deriving DecidableEq, Repr

/-- The title and description of a document unless others are given. -/
def generatedTitle : String := "auto-generated swagger specification"

/-- The host of a document unless another one is given. -/
def defaultHost : String := "localhost:8080"

/-- The base path of a document unless another one is given. -/
def defaultBasePath : String := "/"

/-- The version of the specification that documents follow. -/
def specificationVersion : String := "2.0"

/-- The responses of every operation. -/
def successResponses : OrderedMap String Response :=
  (∅ : OrderedMap String Response).insert "200" { description := "Success" }

/-- A list, unless it is empty. -/
def nonEmpty? {α : Type} (xs : List α) : Option (List α) :=
  if xs.isEmpty then none else some xs

/-- The parameters of a profile that are carried in the path. -/
def pathParameters (p : Profile) : List ParameterItem :=
  (p.parameters.filter Parameter.inPath).map ParameterItem.ofParameter

/-- The parameters of a profile that are carried elsewhere. -/
def operationParameters (p : Profile) : List ParameterItem :=
  (p.parameters.filter fun param => !param.inPath).map ParameterItem.ofParameter

/-- The operation of a profile of the route `name`. -/
def operationOf (name : String) (p : Profile) : Operation where
  summary := name
  description := name
  operationId := name
  produces := [p.produces]
  parameters := nonEmpty? (operationParameters p)
  responses := successResponses

namespace Builder

/-- The document without paths. -/
def empty : Builder where
  info := { title := generatedTitle, description := some generatedTitle, version := "1.0.0" }
  host := defaultHost
  basePath := defaultBasePath
  paths := ∅
  owners := ∅
  collisions := []

/-- The same with other general information. -/
def withInfo (b : Builder) (info : Info) : Builder := { b with info }

/-- The same with another server. -/
def withServer (b : Builder) (host basePath : String) : Builder := { b with host, basePath }

/-- What is recorded when the route `name` declares a verb of a URL
that is declared already. -/
def collision? (b : Builder) (url name : String) (verb : Verb) : Option Collision :=
  (b.owners.get? (url, verb)).map fun previous => { verb, url, previous, kept := name }

/-- The document with one more operation. -/
def addOperation (b : Builder) (url name : String) (verb : Verb) (p : Profile) : Builder :=
  { b with
    paths := b.paths.update url PathItem.empty (·.setOperation verb (operationOf name p))
    owners := b.owners.insert (url, verb) name
    collisions := b.collisions ++ (b.collision? url name verb).toList }

/-- The path item with the path parameters of a route, unless it has
some already or none are called for. -/
def shareParameters (r : Route) (item : PathItem) : PathItem :=
  if item.parameters.isNone && Placeholder.hasAny r.url then
    { item with parameters := r.first?.map pathParameters }
  else item

/-- The document with one more route. Its URL gets a path item even if
the route has no verbs. -/
def addRoute (b : Builder) (r : Route) : Builder :=
  let b := { b with paths := b.paths.update r.url PathItem.empty id }
  let b := r.profiles.entries.foldl (fun b (verb, p) => b.addOperation r.url r.name verb p) b
  { b with paths := b.paths.update r.url PathItem.empty (shareParameters r) }

/-- The document with more routes. -/
def addRoutes (b : Builder) (rs : List Route) : Builder := rs.foldl addRoute b

/-- The finished document. -/
def build (b : Builder) : Document where
  swagger := specificationVersion
  host := b.host
  basePath := b.basePath
  produces := [defaultContentType]
  info := b.info
  paths := b.paths

/-- The document does not depend on what collided. -/
theorem collisions_build (b : Builder) (cs : List Collision) :
    { b with collisions := cs }.build = b.build := rfl

end Builder

/-- The document of a list of routes, with a notice for each
collision. -/
def documentOf (routes : List Route) (host basePath : String) : Noted Document := do
  let b := (Builder.empty.withServer host basePath).addRoutes routes
  Noted.noteAll (b.collisions.map .collision)
  return b.build

end RouteDoc.OpenApi
