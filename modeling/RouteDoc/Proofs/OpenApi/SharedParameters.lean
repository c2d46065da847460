import RouteDoc.Proofs.OpenApi.Findings
import RouteDoc.Proofs.OpenApi.Parameters
import RouteDoc.Proofs.Placeholder

/-!
# `RouteDoc.Proofs.OpenApi.SharedParameters`: the path parameters of a URL

Of several routes that declare a verb of a URL, the last one gives the
operation, but the first one gives the path parameters: they stand at the
path item, and once they are there no route changes them. A route without
verbs gives none, nor does any route of a URL without placeholders. A route
that has a verb always does, even if the list is empty.

* `isSome_sharedBy`: which routes have some to give.
* `findSome?_sharedBy_eq_some_iff`: which of several routes gives them.
* `sharedParameters_of_addRoutes`: what a path item has.
-/

set_option autoImplicit false

namespace RouteDoc.OpenApi

variable {rs : List Route} {r : Route} {url : String} {ps : List ParameterItem}

/-! ### The route that gives them -/

/-- A route offers parameters if its URL has a placeholder and it has a verb,
even if none of them is in the path. -/
theorem isSome_sharedBy :
    (PathItem.sharedBy r).isSome ↔ Placeholder.names r.url ≠ [] ∧ r.verbs ≠ [] := by
  have hverbs : r.first?.isSome ↔ r.verbs ≠ [] := by
    rw [Route.first?, Option.isSome_map, OrderedMap.head?, List.isSome_head?]
    exact (not_congr List.map_eq_nil_iff).symm
  rw [← Placeholder.hasAny_iff, PathItem.sharedBy]
  cases Placeholder.hasAny r.url with
  | false => simp
  | true => simpa using hverbs

/-- What is found first among the routes of a URL is found first among all
routes where the others are passed over. -/
theorem findSome?_filter_url_eq {β : Type} (f : Route → Option β) (rs : List Route)
    (url : String) :
    (rs.filter fun r => r.url = url).findSome? f
      = rs.findSome? fun r => if r.url = url then f r else none := by
  induction rs with
  | nil => rfl
  | cons r rs ih =>
      by_cases hurl : r.url = url
      · rw [List.filter_cons_of_pos (by simpa using hurl), List.findSome?_cons, List.findSome?_cons,
          if_pos hurl, ih]
      · rw [List.filter_cons_of_neg (by simpa using hurl), List.findSome?_cons, if_neg hurl, ih]

/-- The parameters that the routes of a URL share are the path parameters of
the first verb of the first of them that has one. -/
theorem findSome?_sharedBy_eq_some_iff :
    (rs.filter fun r => r.url = url).findSome? PathItem.sharedBy = some ps ↔
      Placeholder.names url ≠ [] ∧ ∃ before r after verb p others,
        rs = before ++ r :: after ∧ r.url = url ∧ r.profiles.entries = (verb, p) :: others ∧
        (∀ t ∈ before, t.url = url → t.verbs = []) ∧ ps = pathParameters p := by
  rw [findSome?_filter_url_eq, List.findSome?_eq_some_iff]
  constructor
  · rintro ⟨before, r, after, hrs, hr, hbefore⟩
    rw [Option.ite_none_right_eq_some] at hr
    obtain ⟨rfl, hr⟩ := hr
    have hnames := (isSome_sharedBy.1 (Option.isSome_of_eq_some hr)).1
    obtain ⟨-, _, hfirst, hps⟩ := PathItem.sharedBy_eq_some_iff.1 hr
    obtain ⟨⟨verb, p⟩, hhead, rfl⟩ := Option.map_eq_some_iff.1 hfirst
    obtain ⟨others, hentries⟩ := List.head?_eq_some_iff.1 hhead
    refine ⟨hnames, before, r, after, verb, p, others, hrs, rfl, hentries, ?_, hps.symm⟩
    intro t ht hurl
    -- A route before it that has a verb would have been found.
    by_contra hverbs
    have hsome := isSome_sharedBy.2 ⟨hurl ▸ hnames, hverbs⟩
    have hnone := hbefore t ht
    rw [if_pos hurl] at hnone
    rw [hnone] at hsome
    cases hsome
  · rintro ⟨hnames, before, r, after, verb, p, others, hrs, rfl, hentries, hbefore, hps⟩
    refine ⟨before, r, after, hrs, ?_, ?_⟩
    · rw [if_pos rfl, PathItem.sharedBy_eq_some_iff]
      have hhead : r.profiles.head? = some (verb, p) :=
        List.head?_eq_some_iff.2 ⟨others, hentries⟩
      exact ⟨Placeholder.hasAny_iff.2 hnames, p, congrArg (Option.map Prod.snd) hhead, hps.symm⟩
    · intro t ht
      split
      · next hurl =>
        have hnot : ¬(PathItem.sharedBy t).isSome :=
          fun hsome => (isSome_sharedBy.1 hsome).2 (hbefore t ht hurl)
        exact Option.not_isSome_iff_eq_none.1 hnot
      · rfl

/-- Some route of a URL offers parameters if and only if the URL has a
placeholder and one of its routes has a verb. -/
theorem isSome_findSome?_sharedBy :
    ((rs.filter fun r => r.url = url).findSome? PathItem.sharedBy).isSome ↔
      Placeholder.names url ≠ [] ∧ ∃ r ∈ rs, r.url = url ∧ r.verbs ≠ [] := by
  simp only [List.findSome?_isSome_iff, List.mem_filter, decide_eq_true_eq, isSome_sharedBy]
  constructor
  · rintro ⟨r, ⟨hr, rfl⟩, hnames, hverbs⟩
    exact ⟨hnames, r, hr, rfl, hverbs⟩
  · rintro ⟨hnames, r, hr, rfl, hverbs⟩
    exact ⟨r, ⟨hr, rfl⟩, hnames, hverbs⟩

/-! ### What an item has -/

/-- The item of a URL that some routes have, in a document that had none, is
made of these routes alone. -/
theorem get?_addRoutes_of_empty {b : Builder} (hpaths : b.paths = ∅) (h : url ∈ rs.map Route.url) :
    (b.addRoutes rs).build.paths.get? url
      = some (PathItem.empty.withRoutes (rs.filter fun r => r.url = url)) := by
  have hnone : b.paths.get? url = none := by
    rw [hpaths]
    rfl
  show (b.addRoutes rs).paths.get? url = _
  rw [Builder.get?_addRoutes, if_pos h, hnone]
  rfl

/-- The path parameters of a profile are written with `path` as their place. -/
theorem location_of_mem_pathParameters {p : Profile} {q : ParameterItem}
    (h : q ∈ pathParameters p) : q.location = "path" := by
  obtain ⟨param, -, hpath, rfl⟩ := mem_pathParameters_iff.1 h
  rw [← inPath_ofParameter] at hpath
  exact of_decide_eq_true hpath

/-- The path parameters of an item are those of the first verb of the first
route that has one, if the URL has a placeholder, and stay the same whatever
routes follow. `Describes` says of each of them, in order, what its object
holds. All of them are in the path, and no parameter of an operation is. -/
theorem sharedParameters_of_addRoutes (info : Info) (host basePath : String)
    (h : url ∈ rs.map Route.url) :
    let start := (Builder.empty.withInfo info).withServer host basePath
    ∃ item, (start.addRoutes rs).build.paths.get? url = some item ∧
      (item.parameters.isSome ↔
        Placeholder.names url ≠ [] ∧ ∃ r ∈ rs, r.url = url ∧ r.verbs ≠ []) ∧
      (∀ ps, item.parameters = some ps →
        (∃ before r after verb p others, rs = before ++ r :: after ∧ r.url = url ∧
          r.profiles.entries = (verb, p) :: others ∧
          (∀ t ∈ before, t.url = url → t.verbs = []) ∧
          List.Forall₂ ParameterItem.Describes ps
            (p.parameters.filter fun q => q.location = .path)) ∧
        (∀ q ∈ ps, q.location = "path") ∧
        ∀ later, ∃ item', (start.addRoutes (rs ++ later)).build.paths.get? url = some item' ∧
          item'.parameters = some ps) ∧
      ∀ verb op, item.operation? verb = some op →
        ∀ q ∈ op.parameters.getD [], q.location ≠ "path" := by
  intro start
  have hparameters : ∀ rs : List Route,
      (PathItem.empty.withRoutes (rs.filter fun r => r.url = url)).parameters
        = (rs.filter fun r => r.url = url).findSome? PathItem.sharedBy :=
    fun rs => PathItem.parameters_withRoutes _ _
  refine ⟨_, get?_addRoutes_of_empty rfl h, ?_, fun ps hps => ⟨?_, ?_, fun later => ?_⟩, ?_⟩
  · rw [hparameters, isSome_findSome?_sharedBy]
  · rw [hparameters, findSome?_sharedBy_eq_some_iff] at hps
    obtain ⟨-, before, r, after, verb, p, others, hrs, hurl, hentries, hbefore, rfl⟩ := hps
    exact ⟨before, r, after, verb, p, others, hrs, hurl, hentries, hbefore,
      forall₂_describes_pathParameters p⟩
  · intro q hq
    rw [hparameters, findSome?_sharedBy_eq_some_iff] at hps
    obtain ⟨-, _, _, _, _, p, _, -, -, -, -, rfl⟩ := hps
    exact location_of_mem_pathParameters hq
  · have hlater : url ∈ (rs ++ later).map Route.url := by
      rw [List.map_append]
      exact List.mem_append_left _ h
    refine ⟨_, get?_addRoutes_of_empty rfl hlater, ?_⟩
    -- The route that was found first still is.
    rw [hparameters] at hps ⊢
    rw [List.filter_append, List.findSome?_append, hps]
    rfl
  · intro verb op hop q hq
    obtain ⟨r, -, p, -, rfl⟩ := operation_withRoutes (mem_operations_iff.2 hop)
    have hown : q ∈ operationParameters p := by
      rwa [← getD_nonEmpty? (operationParameters p)]
    exact of_decide_eq_false (not_inPath_of_mem_operationParameters hown)

/-- A route without verbs, one with two of them, and one that replaces the
operation of the first of these. -/
def overtakenRoutes : List Route :=
  let bare := Route.bare "/a/\x7bid\x7d"
  let withId (verb : Verb) (type : String) :=
    (Profile.empty verb).addParameter (.ofPlaceholder "id" type)
  let q : Parameter :=
    { name := "q", location := .form, required := false, type := "string", default := "" }
  [bare "none",
    ((bare "first").attach ((withId .post "integer").addParameter q)).attach (withId .get "number"),
    (bare "last").attach (withId .post "string")]

/-- The document of these routes. -/
def overtakenDocument : Document := (Builder.empty.addRoutes overtakenRoutes).build

/-- The path parameter of these routes: the one that the first verb with an
operation declares, not the one of the operation that is left. -/
def overtakenParameter : ParameterItem where
  name := "id"
  location := "path"
  required := true
  type := "integer"
  description := "id"
  operationId := "id"
  default := none

/-- The operation of the route in the middle is replaced, and its path
parameter stays: no later route is asked for one. -/
theorem sharedParameters_of_overtakenRoutes :
    ∃ item, overtakenDocument.paths.get? "/a/\x7bid\x7d" = some item ∧
      (item.operation? .post).map (·.operationId) = some "last" ∧
      item.parameters = some [overtakenParameter] ∧
      ∀ q ∈ item.parameters.getD [], q.location = "path" := by
  obtain ⟨item, hitem, -, hshared, -⟩ := @sharedParameters_of_addRoutes overtakenRoutes
    "/a/\x7bid\x7d" Builder.empty.info Builder.empty.host Builder.empty.basePath (by decide)
  have hitem : overtakenDocument.paths.get? "/a/\x7bid\x7d" = some item := hitem
  have hparts : (overtakenDocument.paths.get? "/a/\x7bid\x7d").map
        (fun item => ((item.operation? .post).map (·.operationId), item.parameters))
      = some (some "last", some [overtakenParameter]) := by
    decide +kernel
  rw [hitem, Option.map_some, Option.some.injEq, Prod.mk.injEq] at hparts
  obtain ⟨hpost, hparameters⟩ := hparts
  refine ⟨item, hitem, hpost, hparameters, ?_⟩
  rw [hparameters]
  exact (hshared _ hparameters).2.1

end RouteDoc.OpenApi
