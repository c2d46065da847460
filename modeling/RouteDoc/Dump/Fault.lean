import RouteDoc.Files.Path
import RouteDoc.Json.Fault

/-!
# `RouteDoc.Dump.Fault`: what can be wrong with a route dump
-/

set_option autoImplicit false

namespace RouteDoc.Dump

/-- Why a route dump cannot be read. -/
inductive Fault where
  /-- The file holds no text that can be read. -/
  | unreadable (fault : Files.ReadFault)
  /-- The text is not JSON. -/
  | notJson (path : Files.Path)
  /-- The text is JSON, but its value is not an object. -/
  | notAnObject (path : Files.Path)
  deriving DecidableEq, Repr

/-- The text for a fault. -/
def Fault.message : Fault → String
  | unreadable fault => "IO error: " ++ fault.message
  | notJson path => "invalid route dump " ++ path.shown ++ ": " ++ Json.faultMessage
  | notAnObject path =>
    "invalid route dump " ++ path.shown ++ ": top-level value is not an object"

/-- The texts for a fault and for what lies behind it, outermost
first. -/
def Fault.chain (fault : Fault) : List String :=
  match fault with
  | unreadable behind => [fault.message, behind.message]
  | _ => [fault.message]

end RouteDoc.Dump
