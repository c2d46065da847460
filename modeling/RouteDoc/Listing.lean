import RouteDoc.Route

/-!
# `RouteDoc.Listing`: plain listings of routes

The semicolon listing has a line of headings and then a line per route
with its URL, the first verb, the name and the content type. The URL
list has a line per route. Fields are written as they are, so that a
field with a semicolon or a line break in it cannot be told from
several.
-/

set_option autoImplicit false

namespace RouteDoc.Listing

/-- The headings of the semicolon listing. -/
def headings : List String := ["Route", "Method", "Name", "Produces"]

/-- The fields of a route in the semicolon listing. A route without
verbs has neither a verb nor a content type. -/
def fields (r : Route) : List String :=
  match r.first? with
  | some p => [r.url, p.verb.token, r.name, p.produces]
  | none => [r.url, "", r.name, ""]

/-- A line of the semicolon listing. -/
def row (fields : List String) : String := String.intercalate ";" fields ++ "\n"

/-- The lines of several routes. -/
def rows (routes : List Route) : String := String.join (routes.map (row ∘ fields))

/-- The semicolon listing. -/
def csv (routes : List Route) : String := row headings ++ rows routes

/-- The URL list. -/
def urlList (routes : List Route) : String := String.join (routes.map fun r => r.url ++ "\n")

end RouteDoc.Listing
