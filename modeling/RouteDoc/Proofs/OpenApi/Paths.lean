import RouteDoc.OpenApi.Builder
import RouteDoc.Proofs.Keyed

/-!
# `RouteDoc.Proofs.OpenApi.Paths`: the path items of a document

A route changes the path item of its own URL and no other. The item of a
URL is therefore a fold over the routes of that URL, and each of its
parts can be read off: the operation of a verb comes from the last of
them that answers it, the shared parameters from the first of them that
answers any.

* `get?_addRoute`: what a route does to the items.
* `operation?_withRoutes`, `parameters_withRoutes`: the parts of an item.
* `get?_documentOf`: the items of a whole document.
-/

set_option autoImplicit false

namespace RouteDoc.OpenApi

/-! ### One item -/

namespace PathItem

/-- The item with the operations of some profiles of the route `name`. -/
def withProfiles (name : String) (item : PathItem) (profiles : List (Verb × Profile)) : PathItem :=
  profiles.foldl (fun item (verb, p) => item.setOperation verb (operationOf name p)) item

/-- The item with one more route of its URL. -/
def withRoute (item : PathItem) (r : Route) : PathItem :=
  Builder.shareParameters r (item.withProfiles r.name r.profiles.entries)

variable {item : PathItem} {r : Route} {verb : Verb}

/-- Operations leave the shared parameters of their item alone. -/
theorem parameters_withProfiles (name : String) (item : PathItem)
    (profiles : List (Verb × Profile)) :
    (withProfiles name item profiles).parameters = item.parameters := by
  induction profiles generalizing item with
  | nil => rfl
  | cons profile profiles ih =>
      obtain ⟨verb, p⟩ := profile
      refine (ih _).trans ?_
      cases verb <;> rfl

/-- Of several profiles of one verb, the last one gives the operation. A verb
without any keeps the one that it has. -/
theorem operation?_withProfiles (name : String) (item : PathItem)
    (profiles : List (Verb × Profile)) (verb : Verb) :
    (withProfiles name item profiles).operation? verb
      = ((profiles.reverse.find? fun profile => profile.1 = verb).map
          fun profile => operationOf name profile.2).or (item.operation? verb) := by
  induction profiles generalizing item with
  | nil => rfl
  | cons profile profiles ih =>
      obtain ⟨first, p⟩ := profile
      have hstep : (item.setOperation first (operationOf name p)).operation? verb
          = (([(first, p)].find? fun profile => profile.1 = verb).map
              fun profile => operationOf name profile.2).or (item.operation? verb) := by
        by_cases hverb : first = verb
        · subst hverb
          simp
        · rw [setOperation_of_ne _ _ (Ne.symm hverb)]
          simp [hverb]
      refine (ih _).trans ?_
      rw [hstep, ← Option.or_assoc, List.reverse_cons, List.find?_append, Option.map_or]

/-- A route gives an item the operations of its verbs and leaves the others.
To share parameters changes no operation. -/
theorem operation?_withRoute :
    (item.withRoute r).operation? verb
      = ((r.profile? verb).map (operationOf r.name)).or (item.operation? verb) := by
  have hshare : (item.withRoute r).operation? verb
      = (item.withProfiles r.name r.profiles.entries).operation? verb := by
    unfold withRoute Builder.shareParameters
    split
    · cases verb <;> rfl
    · rfl
  have hfind : (r.profiles.entries.reverse.find? fun profile => profile.1 = verb)
      = r.profiles.entries.find? fun profile => profile.1 = verb :=
    Keyed.find?_reverse r.profiles.distinct verb
  rw [hshare, operation?_withProfiles, hfind, Route.profile?, OrderedMap.get?, Option.map_map]
  rfl

/-- What a route offers to share with the others of its URL. -/
def sharedBy (r : Route) : Option (List ParameterItem) :=
  if Placeholder.hasAny r.url then r.first?.map pathParameters else none

/-- A route offers the path parameters of its first profile, and none if
it has no profile or its URL no placeholder. -/
theorem sharedBy_eq_some_iff {ps : List ParameterItem} :
    sharedBy r = some ps ↔
      Placeholder.hasAny r.url = true ∧ ∃ p, r.first? = some p ∧ pathParameters p = ps := by
  unfold sharedBy
  rw [Option.ite_none_right_eq_some, Option.map_eq_some_iff]

/-- A route shares its parameters with an item that has none yet. Those that
are there stay. -/
theorem parameters_withRoute :
    (item.withRoute r).parameters = item.parameters.or (sharedBy r) := by
  have hkeep := parameters_withProfiles r.name item r.profiles.entries
  unfold withRoute Builder.shareParameters sharedBy
  rw [hkeep]
  -- Parameters that are there stay, whatever the route offers.
  cases hparameters : item.parameters with
  | some ps => simpa [hparameters] using hkeep
  | none =>
      cases Placeholder.hasAny r.url with
      | true => simp
      | false => simpa [hparameters] using hkeep

/-- The item with several routes of its URL, in order. -/
def withRoutes (item : PathItem) (rs : List Route) : PathItem := rs.foldl withRoute item

/-- The operation of a verb is that of the last route that answers it, because
each takes the place of the one before. -/
theorem operation?_withRoutes (item : PathItem) (rs : List Route) (verb : Verb) :
    (item.withRoutes rs).operation? verb
      = (rs.reverse.findSome? fun r => (r.profile? verb).map (operationOf r.name)).or
          (item.operation? verb) := by
  induction rs generalizing item with
  | nil => rfl
  | cons r rs ih =>
      refine (ih _).trans ?_
      rw [operation?_withRoute, ← Option.or_assoc, List.reverse_cons, List.findSome?_append]
      simp

/-- The shared parameters are those of the first route that offers any,
because none takes their place. -/
theorem parameters_withRoutes (item : PathItem) (rs : List Route) :
    (item.withRoutes rs).parameters = item.parameters.or (rs.findSome? sharedBy) := by
  induction rs generalizing item with
  | nil => simp [withRoutes]
  | cons r rs ih =>
      refine (ih _).trans ?_
      rw [parameters_withRoute, Option.or_assoc, List.findSome?_cons]
      cases sharedBy r <;> rfl

end PathItem

/-! ### All items -/

namespace Builder

variable {b : Builder} {url : String}

/-- An operation changes the item of its own URL only. -/
theorem get?_addOperation (b : Builder) (target name : String) (verb : Verb) (p : Profile)
    (url : String) :
    (b.addOperation target name verb p).paths.get? url
      = if url = target
        then some (((b.paths.get? target).getD PathItem.empty).setOperation verb
          (operationOf name p))
        else b.paths.get? url :=
  OrderedMap.get?_update _ _

/-- The profiles of a route change the item of its URL, once it is
there. -/
theorem get?_addOperations (target name : String) (profiles : List (Verb × Profile))
    {b : Builder} {item : PathItem} (hitem : b.paths.get? target = some item) (url : String) :
    (profiles.foldl (fun b (verb, p) => b.addOperation target name verb p) b).paths.get? url
      = if url = target then some (item.withProfiles name profiles) else b.paths.get? url := by
  induction profiles generalizing b item with
  | nil =>
      rw [List.foldl_nil]
      split
      · next h => exact h ▸ hitem
      · rfl
  | cons profile profiles ih =>
      obtain ⟨verb, p⟩ := profile
      have hnext : (b.addOperation target name verb p).paths.get? target
          = some (item.setOperation verb (operationOf name p)) := by
        rw [get?_addOperation, if_pos rfl, hitem]
        rfl
      rw [List.foldl_cons, ih hnext, get?_addOperation]
      split <;> rfl

/-- So does a route, whose operations are all of one URL. -/
theorem get?_addRoute (b : Builder) (r : Route) (url : String) :
    (b.addRoute r).paths.get? url
      = if url = r.url then some (((b.paths.get? r.url).getD PathItem.empty).withRoute r)
        else b.paths.get? url := by
  let opened := { b with paths := b.paths.update r.url PathItem.empty id }
  have hopened : ∀ url, opened.paths.get? url
      = if url = r.url then some ((b.paths.get? r.url).getD PathItem.empty)
        else b.paths.get? url :=
    fun url => OrderedMap.get?_update _ _
  have hitem : opened.paths.get? r.url = some ((b.paths.get? r.url).getD PathItem.empty) := by
    rw [hopened, if_pos rfl]
  -- The item is there before the first operation, and shares its parameters after the last.
  have hprofiles := get?_addOperations r.url r.name r.profiles.entries hitem
  rw [addRoute]
  show (OrderedMap.update _ r.url PathItem.empty (shareParameters r)).get? url = _
  rw [OrderedMap.get?_update, hprofiles, hprofiles, if_pos rfl, hopened]
  split <;> rfl

/-- The item of a URL is made of the routes of that URL, in their order. All
others go past it. -/
theorem get?_addRoutes (b : Builder) (rs : List Route) (url : String) :
    (b.addRoutes rs).paths.get? url
      = if url ∈ rs.map Route.url
        then some (((b.paths.get? url).getD PathItem.empty).withRoutes
          (rs.filter fun r => r.url = url))
        else b.paths.get? url := by
  induction rs generalizing b with
  | nil => rfl
  | cons r rs ih =>
      have hstep : (b.addRoutes (r :: rs)).paths.get? url
          = ((b.addRoute r).addRoutes rs).paths.get? url := rfl
      rw [hstep, ih, get?_addRoute]
      by_cases hurl : url = r.url
      · subst hurl
        have hfilter : (r :: rs).filter (fun r' => r'.url = r.url)
            = r :: rs.filter fun r' => r'.url = r.url :=
          List.filter_cons_of_pos (by simp)
        rw [if_pos rfl, if_pos (show r.url ∈ (r :: rs).map Route.url by simp), hfilter]
        split
        · rfl
        · next hnot =>
          -- No further route has the URL.
          have hempty : rs.filter (fun r' => r'.url = r.url) = [] := by
            rw [List.filter_eq_nil_iff]
            intro r' hr' heq
            exact hnot (List.mem_map.2 ⟨r', hr', by simpa using heq⟩)
          rw [hempty]
          rfl
      · have hfilter : (r :: rs).filter (fun r' => r'.url = url)
            = rs.filter fun r' => r'.url = url :=
          List.filter_cons_of_neg (by simpa using Ne.symm hurl)
        have hmem : url ∈ (r :: rs).map Route.url ↔ url ∈ rs.map Route.url := by
          simp only [List.map_cons, List.mem_cons, hurl, false_or]
        rw [if_neg hurl, hfilter]
        simp only [hmem]

end Builder

/-- The item of a URL in a document is made of the routes of that URL. A
URL without routes has none. -/
theorem get?_documentOf (rs : List Route) (host basePath url : String) :
    (documentOf rs host basePath).value.paths.get? url
      = if url ∈ rs.map Route.url
        then some (PathItem.empty.withRoutes (rs.filter fun r => r.url = url)) else none :=
  Builder.get?_addRoutes _ rs url

end RouteDoc.OpenApi
