import RouteDoc.Text.Blank
import RouteDoc.Text.Search

/-!
# `RouteDoc.Verb`: the request methods a route can answer

Four methods are supported. Each has a token, written in capitals in
dumps and listings, and a key, written in small letters in documents.

* `parse?_token`: a verb is read back from its token.
-/

set_option autoImplicit false

namespace RouteDoc

/-- A supported request method. -/
inductive Verb where
  | get
  | post
  | put
  | delete
  deriving DecidableEq, Repr

namespace Verb

/-- Every verb, in the order in which "any method" lists them and in
which a path item holds its operations. -/
def all : List Verb := [get, post, put, delete]

/-- The token of a verb in dumps, listings and messages. -/
def token : Verb → String
  | get => "GET"
  | post => "POST"
  | put => "PUT"
  | delete => "DELETE"

/-- The key under which a path item holds the operation of a verb. -/
def key : Verb → String
  | get => "get"
  | post => "post"
  | put => "put"
  | delete => "delete"

/-- The verb with the given token. Blanks around the token and the case
of its ASCII letters do not matter. -/
def parse? (s : String) : Option Verb :=
  all.find? fun v =>
    Text.asciiLower v.token.toList = Text.asciiLower (Text.trim s.toList)

/-- Every verb is in the list of all of them. -/
theorem mem_all (v : Verb) : v ∈ all := by cases v <;> decide

/-- A verb is read back from its token. -/
theorem parse?_token (v : Verb) : parse? v.token = some v := by
  cases v <;> decide

end Verb

end RouteDoc
