import RouteDoc.Json.Fault

/-!
# `RouteDoc.Docblock.Fault`: what can be wrong with a metadata block

The arguments of a marker may hold two blocks in braces: default values
and requirements. A block that cannot be read makes the whole marker
worthless.
-/

set_option autoImplicit false

namespace RouteDoc.Docblock

/-- Why a metadata block cannot be read. -/
inductive Fault where
  /-- The default values are not enclosed in braces. -/
  | defaultsNotABlock (value : String)
  /-- A default value has no separator between key and value. -/
  | defaultsNotAPair (value : String)
  /-- The requirements are not an object. -/
  | requirementsNotAnObject
  deriving DecidableEq, Repr

/-- The text for a fault. It quotes the block of default values as it
was written. -/
def Fault.message : Fault → String
  | defaultsNotABlock value =>
    "malformed 'defaults' attribute: expected a \x7b...\x7d block: " ++ value
  | defaultsNotAPair value =>
    "malformed 'defaults' attribute: expected key=value: " ++ value
  | requirementsNotAnObject =>
    "malformed 'requirements' attribute: " ++ Json.faultMessage

end RouteDoc.Docblock
