import RouteDoc.Json.Number
import RouteDoc.Keyed

/-!
# `RouteDoc.Json.Value`: the values of JSON

Objects keep the order of their members. The key of a member that is
written twice keeps its first place and takes its last value.
-/

set_option autoImplicit false

namespace RouteDoc

/-- A JSON value. -/
inductive Json where
  | null
  | bool (b : Bool)
  | number (n : Json.Number)
  | string (s : String)
  | array (items : List Json)
  | object (members : List (String × Json))
  deriving Repr, Inhabited

namespace Json

/-- The text of a string value. -/
def string? : Json → Option String
  | string s => some s
  | _ => none

/-- The members of an object. -/
def members? : Json → Option (List (String × Json))
  | object members => some members
  | _ => none

/-- The value of the member with the given key. -/
def member? (key : String) (members : List (String × Json)) : Option Json :=
  (Keyed.find? Prod.fst key members).map Prod.snd

/-- The members with repeated keys merged: a key keeps its first place
and takes its last value. -/
def merge {α : Type} (members : List (String × α)) : List (String × α) :=
  members.foldl (fun merged member => Keyed.put Prod.fst member merged) []

end Json

end RouteDoc
