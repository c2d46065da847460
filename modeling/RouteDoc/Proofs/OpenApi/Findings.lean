import RouteDoc.OpenApi.Validation
import RouteDoc.Proofs.OpenApi.Paths

/-!
# `RouteDoc.Proofs.OpenApi.Findings`: which findings there are

A finding on a URL comes from the path item of that URL alone, so
whether a document has it can be read off the item. In a document that
was built from routes, the path parameters of an item are exactly those
that its routes share, because no operation has one.

* `mem_findings_iff`: a finding on a URL belongs to its path item.
* `undeclared_mem_iff`, `notInTemplate_mem_iff`, `notRequired_mem_iff`:
  when there is a finding on a path parameter.
* `declared_withRoutes`: the path parameters of a built item.
-/

set_option autoImplicit false

namespace RouteDoc.OpenApi

variable {d : Document} {item : PathItem} {url name : String} {f : Finding}

/-! ### Findings on a URL -/

/-- The URL that a finding is on. -/
def Finding.url? : Finding → Option String
  | emptyHost => none
  | noOperations url => some url
  | undeclared url _ => some url
  | notInTemplate url _ => some url
  | notRequired url _ => some url
  | sharedOperationId _ _ => none

/-- All findings on an item name its URL. -/
theorem url?_of_mem_pathFindings (h : f ∈ pathFindings url item) : f.url? = some url := by
  simp only [pathFindings, List.mem_append, List.mem_map, List.mem_flatMap] at h
  rcases h with (h | ⟨name, -, rfl⟩) | ⟨p, -, h⟩
  · split at h
    · rw [List.mem_singleton.1 h]
      rfl
    · cases h
  · rfl
  · unfold parameterFindings at h
    rcases List.mem_append.1 h with h | h
    · split at h
      · cases h
      · rw [List.mem_singleton.1 h]
        rfl
    · split at h
      · cases h
      · rw [List.mem_singleton.1 h]
        rfl

/-- A finding on a URL is one on its path item. The findings on the document
as a whole name no URL, and those on identifiers name several. -/
theorem mem_findings_iff (hurl : f.url? = some url) :
    f ∈ findings d ↔ ∃ item, d.paths.get? url = some item ∧ f ∈ pathFindings url item := by
  have hhost : f ∉ (if (Text.trim d.host.toList).isEmpty then [Finding.emptyHost] else []) := by
    intro h
    split at h
    · rw [List.mem_singleton.1 h] at hurl
      cases hurl
    · cases h
  have hidentifiers : f ∉ identifierFindings d := by
    intro h
    obtain ⟨id, -, hid⟩ := List.mem_filterMap.1 h
    simp only [Option.ite_none_right_eq_some] at hid
    rw [← Option.some.inj hid.2] at hurl
    cases hurl
  simp only [findings, List.mem_append, hhost, hidentifiers, or_false, false_or, List.mem_flatMap]
  constructor
  · rintro ⟨⟨url', item⟩, hmem, hf⟩
    -- The finding names the URL of its own item.
    have hsame := (url?_of_mem_pathFindings hf).symm.trans hurl
    obtain rfl := Option.some.inj hsame
    exact ⟨item, OrderedMap.mem_entries_iff.1 hmem, hf⟩
  · rintro ⟨item, hitem, hf⟩
    exact ⟨(url, item), OrderedMap.mem_entries_iff.2 hitem, hf⟩

/-! ### Findings on path parameters -/

/-- There are two things that can be wrong with a parameter in the path, and
they do not depend on each other. -/
theorem mem_parameterFindings_iff {p : ParameterItem} :
    f ∈ parameterFindings url p ↔
      (f = .notInTemplate url p.name ∧ p.name ∉ Placeholder.names url) ∨
      (f = .notRequired url p.name ∧ p.required = false) := by
  unfold parameterFindings
  rw [List.mem_append]
  refine or_congr ?_ ?_
  · split <;> simp_all
  · split <;> simp_all

/-- A finding on a URL that has an item is one on that item, since a URL has
one item only. -/
theorem mem_findings_of_get? (hitem : d.paths.get? url = some item) (hurl : f.url? = some url) :
    f ∈ findings d ↔ f ∈ pathFindings url item := by
  rw [mem_findings_iff hurl]
  constructor
  · rintro ⟨item', hitem', hf⟩
    rw [hitem] at hitem'
    obtain rfl := Option.some.inj hitem'
    exact hf
  · exact fun hf => ⟨item, hitem, hf⟩

/-- Every finding on an item is of one of four kinds, each with its own
condition. -/
theorem mem_pathFindings_iff :
    f ∈ pathFindings url item ↔
      (f = .noOperations url ∧ item.operations = []) ∨
      (∃ name ∈ Placeholder.names url, f = .undeclared url name ∧
        name ∉ (declaredPathParameters item).map (·.name)) ∨
      (∃ p ∈ declaredPathParameters item,
        (f = .notInTemplate url p.name ∧ p.name ∉ Placeholder.names url) ∨
        (f = .notRequired url p.name ∧ p.required = false)) := by
  have hoperations : f ∈ (if item.operations.isEmpty then [Finding.noOperations url] else []) ↔
      f = .noOperations url ∧ item.operations = [] := by
    cases item.operations <;> simp
  simp only [pathFindings, List.mem_append, hoperations, List.mem_map, List.mem_filter,
    decide_eq_true_eq, List.mem_flatMap, mem_parameterFindings_iff, or_assoc]
  refine or_congr Iff.rfl (or_congr ?_ Iff.rfl)
  constructor
  · rintro ⟨name, ⟨hname, hnot⟩, rfl⟩
    exact ⟨name, hname, rfl, hnot⟩
  · rintro ⟨name, hname, rfl, hnot⟩
    exact ⟨name, ⟨hname, hnot⟩, rfl⟩

/-- A placeholder is reported as undeclared if and only if no path parameter
of its URL has its name. -/
theorem undeclared_mem_iff (hitem : d.paths.get? url = some item) :
    Finding.undeclared url name ∈ findings d ↔
      name ∈ Placeholder.names url ∧ name ∉ (declaredPathParameters item).map (·.name) := by
  rw [mem_findings_of_get? hitem rfl, mem_pathFindings_iff]
  constructor
  · rintro (⟨h, -⟩ | ⟨name', hname, h, hnot⟩ | ⟨p, -, ⟨h, -⟩ | ⟨h, -⟩⟩)
    · cases h
    · cases h
      exact ⟨hname, hnot⟩
    · cases h
    · cases h
  · exact fun ⟨hname, hnot⟩ => Or.inr (Or.inl ⟨name, hname, rfl, hnot⟩)

/-- A path parameter is reported as missing from the URL if and only if the
URL has no placeholder of its name. -/
theorem notInTemplate_mem_iff (hitem : d.paths.get? url = some item) :
    Finding.notInTemplate url name ∈ findings d ↔
      name ∈ (declaredPathParameters item).map (·.name) ∧ name ∉ Placeholder.names url := by
  rw [mem_findings_of_get? hitem rfl, mem_pathFindings_iff]
  constructor
  · rintro (⟨h, -⟩ | ⟨name', -, h, -⟩ | ⟨p, hp, ⟨h, hnot⟩ | ⟨h, -⟩⟩)
    · cases h
    · cases h
    · cases h
      exact ⟨List.mem_map_of_mem hp, hnot⟩
    · cases h
  · rintro ⟨hname, hnot⟩
    obtain ⟨p, hp, rfl⟩ := List.mem_map.1 hname
    exact Or.inr (Or.inr ⟨p, hp, Or.inl ⟨rfl, hnot⟩⟩)

/-- A path parameter is reported as not required if and only if one of its
name says so itself. -/
theorem notRequired_mem_iff (hitem : d.paths.get? url = some item) :
    Finding.notRequired url name ∈ findings d ↔
      ∃ p ∈ declaredPathParameters item, p.name = name ∧ p.required = false := by
  rw [mem_findings_of_get? hitem rfl, mem_pathFindings_iff]
  constructor
  · rintro (⟨h, -⟩ | ⟨name', -, h, -⟩ | ⟨p, hp, ⟨h, -⟩ | ⟨h, hrequired⟩⟩)
    · cases h
    · cases h
    · cases h
    · cases h
      exact ⟨p, hp, rfl, hrequired⟩
  · rintro ⟨p, hp, rfl, hrequired⟩
    exact Or.inr (Or.inr ⟨p, hp, Or.inr ⟨rfl, hrequired⟩⟩)

/-! ### Built items -/

/-- A parameter is carried in the path of a document if it is in the
route. -/
theorem inPath_ofParameter (p : Parameter) : (ParameterItem.ofParameter p).inPath = p.inPath := by
  have hlabel : ∀ l : Location, decide (l.label = Location.path.label) = (l == .path) := by
    intro l
    cases l <;> decide
  exact hlabel p.location

/-- The path parameters of a profile are made of those of its parameters that
are in the path. -/
theorem mem_pathParameters_iff {p : Profile} {param : ParameterItem} :
    param ∈ pathParameters p ↔
      ∃ q ∈ p.parameters, q.inPath = true ∧ ParameterItem.ofParameter q = param := by
  unfold pathParameters
  simp only [List.mem_map, List.mem_filter, and_assoc]

/-- No parameter of an operation is in the path. -/
theorem not_inPath_of_mem_operationParameters {p : Profile} {param : ParameterItem}
    (h : param ∈ operationParameters p) : param.inPath = false := by
  obtain ⟨q, hq, rfl⟩ := List.mem_map.1 h
  rw [inPath_ofParameter]
  simpa using (List.mem_filter.1 hq).2

/-- A list that is left out when it is empty is an empty list where it is
missing. -/
theorem getD_nonEmpty? {α : Type} (xs : List α) : (nonEmpty? xs).getD [] = xs := by
  cases xs <;> rfl

/-- The operations of an item are listed with their verbs, each once. -/
theorem mem_operations_iff {verb : Verb} {op : Operation} :
    (verb, op) ∈ item.operations ↔ item.operation? verb = some op := by
  unfold PathItem.operations
  rw [List.mem_filterMap]
  constructor
  · rintro ⟨verb', -, h⟩
    obtain ⟨op', hop, heq⟩ := Option.map_eq_some_iff.1 h
    cases heq
    exact hop
  · intro hop
    exact ⟨verb, Verb.mem_all verb, by rw [hop]; rfl⟩

/-- An operation of a built item is that of one of its routes, made of the
profile that this route has for the verb. -/
theorem operation_withRoutes {rs : List Route} {verb : Verb} {op : Operation}
    (hop : (verb, op) ∈ (PathItem.empty.withRoutes rs).operations) :
    ∃ r ∈ rs, ∃ p, r.profile? verb = some p ∧ op = operationOf r.name p := by
  have hempty : PathItem.empty.operation? verb = none := by cases verb <;> rfl
  rw [mem_operations_iff, PathItem.operation?_withRoutes, hempty, Option.or_none] at hop
  obtain ⟨r, hr, hmap⟩ := List.exists_of_findSome?_eq_some hop
  obtain ⟨p, hp, rfl⟩ := Option.map_eq_some_iff.1 hmap
  exact ⟨r, List.mem_reverse.1 hr, p, hp, rfl⟩

/-- The path parameters of a built item are those that its routes
share. -/
theorem declared_withRoutes (rs : List Route) :
    declaredPathParameters (PathItem.empty.withRoutes rs)
      = (rs.findSome? PathItem.sharedBy).getD [] := by
  have hshared : ∀ p ∈ (rs.findSome? PathItem.sharedBy).getD [], p.inPath = true := by
    intro p hp
    -- What a route shares is in the path.
    cases hfirst : rs.findSome? PathItem.sharedBy with
    | none => simp [hfirst] at hp
    | some ps =>
        rw [hfirst, Option.getD_some] at hp
        obtain ⟨r, -, hr⟩ := List.exists_of_findSome?_eq_some hfirst
        obtain ⟨-, verb, profile, -, rfl⟩ := PathItem.sharedBy_eq_some_iff.1 hr
        obtain ⟨q, -, hq, rfl⟩ := mem_pathParameters_iff.1 hp
        rwa [inPath_ofParameter]
  have hparameters : (PathItem.empty.withRoutes rs).parameters = rs.findSome? PathItem.sharedBy :=
    PathItem.parameters_withRoutes _ rs
  unfold declaredPathParameters
  rw [List.filter_append, hparameters, List.filter_eq_self.2 hshared]
  refine List.append_right_eq_self.2 (List.filter_eq_nil_iff.2 fun p hp hpath => ?_)
  -- The parameters of an operation are those that are not in the path.
  obtain ⟨⟨verb, op⟩, hop, hp⟩ := List.mem_flatMap.1 hp
  obtain ⟨r, -, profile, -, rfl⟩ := operation_withRoutes hop
  have hown : p ∈ operationParameters profile := by
    rw [← getD_nonEmpty? (operationParameters profile)]
    exact hp
  rw [not_inPath_of_mem_operationParameters hown] at hpath
  cases hpath

end RouteDoc.OpenApi
