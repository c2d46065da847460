import RouteDoc.Verb

/-!
# `RouteDoc.OpenApi.Collision`: operations declared more than once
-/

set_option autoImplicit false

namespace RouteDoc.OpenApi

/-- A verb of a URL that a second route declares. The operation of the
later route takes the place of the earlier one's. -/
structure Collision where
  /-- The verb. -/
  verb : Verb
  /-- The URL. -/
  url : String
  /-- The name of the route whose operation is replaced. -/
  previous : String
  /-- The name of the route whose operation is kept. -/
  kept : String
  deriving DecidableEq, Repr

/-- The text for a collision. -/
def Collision.message (c : Collision) : String :=
  c.verb.token ++ " " ++ c.url ++ " is declared by both '" ++ c.previous ++ "' and '"
    ++ c.kept ++ "', keeping '" ++ c.kept ++ "'"

end RouteDoc.OpenApi
