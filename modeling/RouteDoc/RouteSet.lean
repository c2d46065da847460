import RouteDoc.Notice
import RouteDoc.Route

/-!
# `RouteDoc.RouteSet`: the routes found so far

Routes are collected in order and never removed. A route goes into the
set under one of two rules: by URL, when no route has been appended
with its URL before, or by name, when the first route of that name is
updated in place and appended if there is none.

The set keeps the URLs of the appended routes, and for every name the
position of the first route that was appended with it.

* `insertByUrl_of_mem`: a route with a known URL leaves the set as it
  is.
* `routes_updateByName_of_none`, `routes_updateByName_of_some`: an
  update by name appends a route, or changes the one it finds.
-/

set_option autoImplicit false

namespace RouteDoc

/-- The routes found so far. -/
structure RouteSet where
  /-- The routes, in the order in which they were appended. -/
  routes : List Route
  /-- The URLs with which routes were appended. -/
  urls : List String
  /-- The position of the first route of each name. -/
  positions : OrderedMap String Nat
  deriving DecidableEq, Repr

namespace RouteSet

/-- The set without routes. -/
def empty : RouteSet := { routes := [], urls := [], positions := ∅ }

instance : EmptyCollection RouteSet := ⟨empty⟩
instance : Inhabited RouteSet := ⟨empty⟩

/-- The number of routes. -/
def size (s : RouteSet) : Nat := s.routes.length

/-- Whether there are no routes. -/
def isEmpty (s : RouteSet) : Bool := s.routes.isEmpty

/-- The set with a route at its end. A name that is known already keeps
its position. -/
def append (s : RouteSet) (r : Route) : RouteSet where
  routes := s.routes ++ [r]
  urls := if r.url ∈ s.urls then s.urls else s.urls ++ [r.url]
  positions := if s.positions.contains r.name then s.positions
    else s.positions.insert r.name s.routes.length

/-- Appends a route unless one has been appended with its URL before,
and tells whether it did. -/
def insertByUrl (s : RouteSet) (r : Route) : RouteSet × Bool :=
  if r.url ∈ s.urls then (s, false) else (s.append r, true)

/-- The set with every route that has a new URL. -/
def insertAllByUrl (s : RouteSet) (rs : List Route) : RouteSet :=
  rs.foldl (fun s r => (s.insertByUrl r).1) s

/-- The first route named `name`. -/
def find? (s : RouteSet) (name : String) : Option Route :=
  (s.positions.get? name).bind fun i => s.routes[i]?

/-- The set with `f` applied to the first route named `name`. If there
is none, a route without verbs is appended first. -/
def updateByName (s : RouteSet) (url name : String) (f : Route → Route) : RouteSet :=
  match s.positions.get? name with
  | some i => { s with routes := s.routes.modify i f }
  | none =>
    -- The URL and the position are those of the route before `f`.
    let fresh := Route.bare url name
    { s.append fresh with routes := s.routes ++ [f fresh] }

/-- What an update by name reports: the route that it appends. -/
def updateNotices (s : RouteSet) (url name : String) : List Notice :=
  if s.positions.contains name then [] else [.routeAdded name url]

variable {s : RouteSet} {r : Route} {url name : String} {f : Route → Route}

/-- A route with a known URL leaves the set as it is. -/
theorem insertByUrl_of_mem (h : r.url ∈ s.urls) : s.insertByUrl r = (s, false) := by
  simp [insertByUrl, h]

/-- A route with a new URL is appended. -/
theorem insertByUrl_of_not_mem (h : r.url ∉ s.urls) : s.insertByUrl r = (s.append r, true) := by
  simp [insertByUrl, h]

/-- An update by a name that is known changes the route at its
position. -/
theorem routes_updateByName_of_some {i : Nat} (h : s.positions.get? name = some i) :
    (s.updateByName url name f).routes = s.routes.modify i f := by
  simp [updateByName, h]

/-- An update by a new name appends a route. -/
theorem routes_updateByName_of_none (h : s.positions.get? name = none) :
    (s.updateByName url name f).routes = s.routes ++ [f (Route.bare url name)] := by
  simp [updateByName, h]

end RouteSet

end RouteDoc
