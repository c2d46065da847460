/-!
# `RouteDoc.Json.Fault`: the text for what is not JSON
-/

set_option autoImplicit false

namespace RouteDoc.Json

/-- What is said of a text that cannot be read as JSON. Where in the
text the reading stopped, and why, is not told. -/
def faultMessage : String := "<json>"

end RouteDoc.Json
