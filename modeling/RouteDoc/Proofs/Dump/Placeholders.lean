import RouteDoc.Proofs.Dump.Profile
import RouteDoc.Proofs.OpenApi.Findings

/-!
# `RouteDoc.Proofs.Dump.Placeholders`: who looks for a placeholder

The name of a placeholder matters to three readers of a URL. The import of
a dump puts a requirement in the path if its name occurs in braces, and
declares the placeholders that nothing else has declared. The builder of a
document asks whether there is a placeholder at all. The check of a
document compares the path parameters with the placeholders. Each of them
looks in its own way, and all of them see the same: the names that stand in
braces, every one at its place.

* `location_of_requirement`, `hasParameter_of_placeholder`: what the import
  of an entry makes of a name.
* `readersAgree_of_isName`: everything that depends on whether a URL has a
  placeholder of a given name.
* `sites_and_readersAgree`: the names that are found, and what depends on them.
-/

set_option autoImplicit false

namespace RouteDoc.Dump

open OpenApi

variable {e : Entry} {p : Profile} {url key : String}

/-- Where the import of an entry puts the parameter of a requirement: in the
path, if a placeholder of its name is found in the URL. -/
theorem location_of_requirement (hkey : Placeholder.IsName key.toList)
    (hrequirement : key ∈ e.requirements.map Prod.fst) :
    ∃ param, (e.applyToProfile p).parameter? key = some param ∧
      (param.location = .path ↔ key ∈ Placeholder.names e.url) := by
  cases hlast : lastWith key e.requirements with
  | none => exact absurd hrequirement (lastWith_eq_none_iff.1 hlast)
  | some pair =>
      have hpair : pair.1 = key := (mem_of_lastWith hlast).1
      refine ⟨requiredParameter e.url pair.1 pair.2, ?_, ?_⟩
      · rw [parameter?_applyToProfile, hlast]
        rfl
      · -- The parameter goes into the path if its name occurs in braces.
        have hpath : (requiredParameter e.url pair.1 pair.2).location = .path ↔
            inTemplate e.url key = true := by
          rw [← hpair, ← inPath_requiredParameter e.url pair.1 pair.2, Parameter.inPath,
            beq_iff_eq]
        rw [hpath, Placeholder.mem_names_iff]
        exact (and_iff_right hkey).symm

/-- A name that no requirement and no default value has is declared when the
entry is imported if a placeholder of the name is found in the URL. -/
theorem hasParameter_of_placeholder (hrequirement : key ∉ e.requirements.map Prod.fst)
    (hdefault : key ∉ e.defaults.map Prod.fst) (hnew : p.hasParameter key = false) :
    (e.applyToProfile p).hasParameter key = true ↔ key ∈ Placeholder.names e.url := by
  have hnone : p.parameter? key = none := by
    simpa [Profile.hasParameter] using hnew
  rw [Profile.hasParameter, parameter?_applyToProfile, lastWith_eq_none_iff.2 hrequirement,
    lastWith_eq_none_iff.2 hdefault, hnone]
  simp

/-- All that depends on whether a URL has a placeholder of the given name
says the same. -/
structure ReadersAgree (url key : String) : Prop where
  /-- The name occurs in braces. -/
  occurs : (Placeholder.text key).toList <:+: url.toList ↔ key ∈ Placeholder.names url
  /-- The test of the import says that it occurs. -/
  tested : inTemplate url key = true ↔ key ∈ Placeholder.names url
  /-- A requirement of the name is a parameter of the path, whatever has been
  declared before. -/
  required : ∀ {e : Entry} {p : Profile}, e.url = url → key ∈ e.requirements.map Prod.fst →
    ∃ param, (e.applyToProfile p).parameter? key = some param ∧
      (param.location = .path ↔ key ∈ Placeholder.names url)
  /-- The import declares a parameter of the name when nothing else does. -/
  scanned : ∀ {e : Entry} {p : Profile}, e.url = url → key ∉ e.requirements.map Prod.fst →
    key ∉ e.defaults.map Prod.fst → p.hasParameter key = false →
    ((e.applyToProfile p).hasParameter key = true ↔ key ∈ Placeholder.names url)
  /-- The check misses a path parameter of the name. -/
  undeclared : ∀ {d : Document} {item : PathItem}, d.paths.get? url = some item →
    key ∉ (declaredPathParameters item).map (·.name) →
    (Finding.undeclared url key ∈ findings d ↔ key ∈ Placeholder.names url)
  /-- The check does not object to a path parameter of the name. -/
  declared : ∀ {d : Document} {item : PathItem}, d.paths.get? url = some item →
    key ∈ (declaredPathParameters item).map (·.name) →
    (Finding.notInTemplate url key ∉ findings d ↔ key ∈ Placeholder.names url)

/-- A key that can be the name of a placeholder is a placeholder of the URL
exactly when its text in braces occurs there, so the two ways of looking agree
on it. -/
theorem readersAgree_of_isName (hkey : Placeholder.IsName key.toList) : ReadersAgree url key := by
  have htested : inTemplate url key = true ↔ key ∈ Placeholder.names url := by
    rw [Placeholder.mem_names_iff]
    exact (and_iff_right hkey).symm
  refine
    { occurs := Text.occursIn_iff.symm.trans htested
      tested := htested
      required := ?_
      scanned := ?_
      undeclared := ?_
      declared := ?_ }
  · intro e p hurl hrequirement
    rw [← hurl]
    exact location_of_requirement hkey hrequirement
  · intro e p hurl hrequirement hdefault hnew
    rw [← hurl]
    exact hasParameter_of_placeholder hrequirement hdefault hnew
  · intro d item hitem hundeclared
    rw [undeclared_mem_iff hitem]
    exact and_iff_left hundeclared
  · intro d item hitem hdeclared
    rw [notInTemplate_mem_iff hitem, not_and, not_not]
    exact ⟨fun h => h hdeclared, fun h _ => h⟩

/-- The names that are found in a URL are those of its placeholders, in the
order of their positions: no place is left out and none counts twice. There
is a placeholder exactly when a name is found. And whether a name is among
them decides all that depends on it, if it can be the name of a
placeholder. -/
theorem sites_and_readersAgree (url : String) :
    (∃ sites, Placeholder.Lists sites url ∧ Placeholder.names url = sites.map Prod.snd) ∧
    (Placeholder.hasAny url = true ↔ Placeholder.names url ≠ []) ∧
    ∀ key, Placeholder.IsName key.toList → ReadersAgree url key := by
  refine ⟨?_, Placeholder.hasAny_iff, ?_⟩
  · exact ⟨Placeholder.sites url, Placeholder.lists_sites url, Placeholder.names_eq_map_sites url⟩
  · intro key hkey
    exact readersAgree_of_isName hkey

end RouteDoc.Dump
