import RouteDoc.Proofs.Dump.Absorb
import RouteDoc.Proofs.Dump.Profile
import RouteDoc.Proofs.OpenApi.Findings

/-!
# `RouteDoc.Proofs.Dump.Document`: the document of a dump on its own

The routes of a dump that is imported on its own are new ones, one per
entry, and every verb of an entry gets the same fresh profile. The path
parameters of a URL are therefore those of one profile: that of the first
entry that has the URL and a verb (`firstAnswering`). What is wrong with
them can be read off that entry.

* `routes_of_dump`: the routes, one per entry.
* `declared_of_dump`: the path parameters of a URL.
* `findings_of_dump`: which findings there are on them.
-/

set_option autoImplicit false

namespace RouteDoc.Dump

open RouteDoc.OpenApi

variable {e : Entry} {es : List Entry} {url : String}

/-! ### The verbs of an entry -/

/-- The verbs of a method text are distinct: a text for any method stands for
the four verbs, and of the methods named twice the second adds nothing. -/
theorem nodup_verbsOf (methods : String) : (verbsOf methods).Nodup := by
  unfold verbsOf
  split
  · decide
  · rw [Keyed.foldl_append_new, List.nil_append]
    exact (Keyed.nodup_eraseDups _).filter _

/-- An entry that was read has no verb twice, so a fresh route gets its
profiles in the order of the entry's verbs. -/
theorem nodup_verbs_of_read {name : String} {description : Json}
    (h : (Entry.read name description).value = some e) : e.verbs.Nodup := by
  cases description with
  | object fields =>
      simp only [Entry.read] at h
      cases hpath : (Json.member? "path" fields).bind Json.string? with
      | none =>
          rw [hpath] at h
          cases h
      | some path =>
          rw [hpath] at h
          obtain rfl := Option.some.inj h
          exact nodup_verbsOf _
  | _ => cases h

/-- The entries of a dump that can be used have no verb twice. -/
theorem nodup_verbs_of_usable {entries : List (String × Json)} (h : e ∈ usable entries) :
    e.verbs.Nodup := by
  obtain ⟨entry, -, hread⟩ := List.mem_filterMap.1 h
  exact nodup_verbs_of_read hread

/-! ### New routes -/

/-- Verbs that are new to a route get their profiles at the end, each made
from the empty profile of the verb. -/
theorem entries_foldl_update (f : Profile → Profile) (vs : List Verb) {r : Route}
    (h : (r.verbs ++ vs).Nodup) :
    (vs.foldl (fun r v => r.update v f) r).profiles.entries
      = r.profiles.entries ++ vs.map fun v => (v, f (.empty v)) := by
  induction vs generalizing r with
  | nil => simp
  | cons v vs ih =>
      have hnew : v ∉ r.verbs := by
        intro hmem
        rw [List.nodup_append] at h
        exact h.2.2 v hmem v (by simp) rfl
      have hprofile : r.profiles.get? v = none := OrderedMap.get?_eq_none_iff.2 hnew
      have hstep : (r.update v f).profiles.entries
          = r.profiles.entries ++ [(v, f (.empty v))] := by
        show Keyed.put Prod.fst (v, f ((r.profiles.get? v).getD (Profile.empty v))) _ = _
        rw [hprofile]
        exact Keyed.put_eq_append hnew
      have hverbs : (r.update v f).verbs = r.verbs ++ [v] := by
        rw [Route.verbs_update, if_neg hnew]
      rw [List.foldl_cons, ih (by rw [hverbs]; simpa using h), hstep]
      simp

/-- The first profile of a new route is that of the first verb of its
entry. -/
theorem first?_fresh (h : e.verbs.Nodup) :
    e.fresh.first? = e.verbs.head?.map fun v => e.applyToProfile (.empty v) := by
  have hentries : e.fresh.profiles.entries
      = e.verbs.map fun v => (v, e.applyToProfile (.empty v)) :=
    entries_foldl_update e.applyToProfile e.verbs h
  rw [Route.first?, OrderedMap.head?, hentries, List.head?_map, Option.map_map]
  rfl

/-- The path parameters of a new route. They are the same under each of
its verbs, for which GET stands here. -/
def Entry.freshPathParameters (e : Entry) : List ParameterItem :=
  pathParameters (e.applyToProfile (.empty .get))

/-- The path parameters that a fresh profile gets from an entry do not depend
on the verb, so any verb of the entry can answer for the shared parameters. -/
theorem pathParameters_applyToProfile (e : Entry) (verb : Verb) :
    pathParameters (e.applyToProfile (.empty verb)) = e.freshPathParameters := by
  show pathParameters (e.applyToProfile ((Profile.empty .get).withVerb verb)) = _
  rw [applyToProfile_withVerb]
  rfl

/-- The route made for an entry has the entry's URL. -/
theorem url_fresh (e : Entry) : e.fresh.url = e.url :=
  (keepsIdentity_apply e).url _

/-- A fresh route has profiles for the verbs of its entry only. -/
theorem mem_verbs_of_profile? {verb : Verb} {p : Profile} (h : e.fresh.profile? verb = some p) :
    verb ∈ e.verbs := by
  have hverb : verb ∈ e.fresh.verbs := Route.mem_verbs_iff.2 ⟨p, h⟩
  rcases (mem_verbs_apply e _ verb).1 hverb with hbare | hverb
  · cases hbare
  · exact hverb

/-- The routes of a dump on its own: a new one for every entry that can
be read. -/
theorem routes_of_dump (dump : OrderedMap String Json) :
    (importEntries ∅ dump.entries).value.routes = (usable dump.entries).map Entry.fresh := by
  have hnames : ((usable dump.entries).map Entry.name).Nodup :=
    (names_usable_sublist dump.entries).nodup dump.distinct
  have hadded : added (usable dump.entries) [] = usable dump.entries :=
    List.filter_eq_self.2 fun e _ => by simp
  have hrefresh : refresh (usable dump.entries) [] = [] :=
    List.eq_nil_of_length_eq_zero (length_refresh _ _)
  rw [routes_importEntries RouteSet.indexed_empty.toNamed]
  show absorb (usable dump.entries) [] = _
  rw [absorb_eq hnames, hadded, hrefresh, List.nil_append]

/-! ### Path parameters of a URL -/

/-- The first entry of a URL that has a verb. -/
def firstAnswering (url : String) (es : List Entry) : Option Entry :=
  es.find? fun e => e.url = url ∧ e.verbs ≠ []

/-- The entries are tried in order: the first is chosen when it has this URL
and a verb, and the others are looked at when it does not. -/
theorem firstAnswering_cons (e : Entry) (es : List Entry) :
    firstAnswering url (e :: es)
      = if e.url = url ∧ e.verbs ≠ [] then some e else firstAnswering url es := by
  unfold firstAnswering
  rw [List.find?_cons]
  by_cases h : e.url = url ∧ e.verbs ≠ []
  · simp [h]
  · simp only [h, decide_false, if_false]

/-- The new routes of a URL share the path parameters of the first one
that has a verb. -/
theorem findSome?_sharedBy (hverbs : ∀ e ∈ es, e.verbs.Nodup)
    (hany : Placeholder.hasAny url = true) :
    ((es.map Entry.fresh).filter fun r => r.url = url).findSome? PathItem.sharedBy
      = (firstAnswering url es).map Entry.freshPathParameters := by
  induction es with
  | nil => rfl
  | cons e es ih =>
      have hrest := ih fun e' he' => hverbs e' (by simp [he'])
      rw [List.map_cons, firstAnswering_cons]
      by_cases hurl : e.url = url
      · have hshared : PathItem.sharedBy e.fresh
            = e.verbs.head?.map fun _ => e.freshPathParameters := by
          rw [PathItem.sharedBy, url_fresh, hurl, if_pos hany, first?_fresh (hverbs e (by simp)),
            Option.map_map]
          exact congrArg (Option.map · _) (funext fun v => pathParameters_applyToProfile e v)
        rw [List.filter_cons_of_pos (by simpa [url_fresh] using hurl), List.findSome?_cons, hshared]
        -- An entry without verbs shares nothing and is passed over.
        cases hhead : e.verbs with
        | nil => simpa using hrest
        | cons v vs => simp [hurl]
      · rw [List.filter_cons_of_neg (by simpa [url_fresh] using hurl), hrest, if_neg]
        exact fun h => hurl h.1

/-- No route shares parameters under a URL without placeholders. -/
theorem findSome?_sharedBy_of_not_hasAny {rs : List Route}
    (hany : Placeholder.hasAny url = false) :
    (rs.filter fun r => r.url = url).findSome? PathItem.sharedBy = none := by
  rw [List.findSome?_eq_none_iff]
  intro r hr
  have hurl : r.url = url := by simpa using (List.mem_filter.1 hr).2
  rw [PathItem.sharedBy, hurl, hany]
  rfl

/-- The document of a dump on its own. -/
def documentOfDump (dump : OrderedMap String Json) (host basePath : String) : Document :=
  (documentOf (importEntries ∅ dump.entries).value.routes host basePath).value

section

variable {dump : OrderedMap String Json} {host basePath : String} {item : PathItem}

/-- What a document of a dump has under a URL is built from the fresh routes
of the entries with this URL, in the order of the dump. -/
theorem item_of_dump (hitem : (documentOfDump dump host basePath).paths.get? url = some item) :
    item = PathItem.empty.withRoutes
      (((usable dump.entries).map Entry.fresh).filter fun r => r.url = url) := by
  rw [documentOfDump, get?_documentOf, Option.ite_none_right_eq_some, routes_of_dump] at hitem
  exact (Option.some.inj hitem.2).symm

/-- A URL with an operation has an entry with a verb. -/
theorem exists_firstAnswering
    (hitem : (documentOfDump dump host basePath).paths.get? url = some item)
    (hoperations : item.operations ≠ []) :
    ∃ e, firstAnswering url (usable dump.entries) = some e := by
  -- The operation comes from a route, and the route from an entry with its verb.
  obtain ⟨⟨verb, op⟩, hop⟩ := List.exists_mem_of_ne_nil _ hoperations
  rw [item_of_dump hitem] at hop
  obtain ⟨r, hr, p, hp, -⟩ := operation_withRoutes hop
  obtain ⟨hr, hurl⟩ := List.mem_filter.1 hr
  obtain ⟨e, he, rfl⟩ := List.mem_map.1 hr
  have hurl : e.url = url := by simpa [url_fresh] using hurl
  have hverbs : e.verbs ≠ [] := List.ne_nil_of_mem (mem_verbs_of_profile? hp)
  refine Option.isSome_iff_exists.1 (List.find?_isSome.2 ⟨e, he, ?_⟩)
  simp [hurl, hverbs]

/-- The path parameters of a URL are those of the first entry that has
the URL and a verb. -/
theorem declared_of_dump (hitem : (documentOfDump dump host basePath).paths.get? url = some item)
    (hfirst : firstAnswering url (usable dump.entries) = some e) :
    declaredPathParameters item
      = if Placeholder.hasAny url then e.freshPathParameters else [] := by
  rw [item_of_dump hitem, declared_withRoutes]
  split
  · next hany =>
    rw [findSome?_sharedBy (fun e he => nodup_verbs_of_usable he) hany, hfirst]
    rfl
  · next hany =>
    rw [findSome?_sharedBy_of_not_hasAny (by simpa using hany)]
    rfl

/-- A path parameter of a URL comes from a path parameter of the profile
that the first entry of the URL gives. -/
theorem exists_of_mem_declared
    (hitem : (documentOfDump dump host basePath).paths.get? url = some item)
    (hfirst : firstAnswering url (usable dump.entries) = some e) {p : ParameterItem}
    (hp : p ∈ declaredPathParameters item) :
    ∃ param ∈ (e.applyToProfile (.empty .get)).parameters,
      param.inPath = true ∧ ParameterItem.ofParameter param = p := by
  rw [declared_of_dump hitem hfirst] at hp
  split at hp
  · exact mem_pathParameters_iff.1 hp
  · cases hp

/-- A placeholder of a URL has a path parameter exactly when the first
entry of the URL declares one. -/
theorem mem_declared_names_iff
    (hitem : (documentOfDump dump host basePath).paths.get? url = some item)
    (hfirst : firstAnswering url (usable dump.entries) = some e) {name : String}
    (hname : name ∈ Placeholder.names url) :
    name ∈ (declaredPathParameters item).map (·.name) ↔
      ∃ param ∈ (e.applyToProfile (.empty .get)).parameters,
        param.inPath = true ∧ param.name = name := by
  have hany : Placeholder.hasAny url = true :=
    Placeholder.hasAny_iff.2 (List.ne_nil_of_mem hname)
  rw [declared_of_dump hitem hfirst, if_pos hany, List.mem_map]
  constructor
  · rintro ⟨p, hp, rfl⟩
    obtain ⟨param, hparam, hpath, rfl⟩ := mem_pathParameters_iff.1 hp
    exact ⟨param, hparam, hpath, rfl⟩
  · rintro ⟨param, hparam, hpath, rfl⟩
    exact ⟨_, mem_pathParameters_iff.2 ⟨param, hparam, hpath, rfl⟩, rfl⟩

end

/-! ### Findings -/

/-- In the document of a dump on its own, take a URL with an operation.
Its path parameters are required, and those whose names a placeholder can
have stand in the URL. A placeholder is reported as undeclared exactly
when the first entry of the URL with a verb gives it a default value and
no requirement. -/
theorem findings_of_dump (dump : OrderedMap String Json) (host basePath : String) {url : String}
    {item : PathItem}
    (hitem : (documentOfDump dump host basePath).paths.get? url = some item)
    (hoperations : item.operations ≠ []) :
    ∃ e, firstAnswering url (usable dump.entries) = some e ∧
      (∀ name, .notRequired url name ∉ findings (documentOfDump dump host basePath)) ∧
      (∀ name, Placeholder.IsName name.toList →
        .notInTemplate url name ∉ findings (documentOfDump dump host basePath)) ∧
      (∀ name, .undeclared url name ∈ findings (documentOfDump dump host basePath) ↔
        name ∈ Placeholder.names url ∧
          name ∈ e.defaults.map Prod.fst ∧ name ∉ e.requirements.map Prod.fst) := by
  obtain ⟨e, hfirst⟩ := exists_firstAnswering hitem hoperations
  have hurl : e.url = url := by
    have hfound := List.find?_some hfirst
    exact (of_decide_eq_true hfound).1
  refine ⟨e, hfirst, ?_, ?_, ?_⟩
  · intro name h
    obtain ⟨p, hp, -, hrequired⟩ := (notRequired_mem_iff hitem).1 h
    obtain ⟨param, hparam, hpath, rfl⟩ := exists_of_mem_declared hitem hfirst hp
    have hfalse : param.required = false := hrequired
    rw [(required_of_inPath hparam hpath).1] at hfalse
    cases hfalse
  · intro name hisName h
    obtain ⟨hmem, hnot⟩ := (notInTemplate_mem_iff hitem).1 h
    obtain ⟨p, hp, rfl⟩ := List.mem_map.1 hmem
    obtain ⟨param, hparam, hpath, rfl⟩ := exists_of_mem_declared hitem hfirst hp
    -- It occurs in braces, and that is enough for a name that a placeholder can have.
    have hinTemplate : inTemplate url param.name = true :=
      hurl ▸ (required_of_inPath hparam hpath).2
    exact hnot (Placeholder.mem_names_iff.2 ⟨hisName, hinTemplate⟩)
  · intro name
    -- What is not declared has a default value and no requirement.
    rw [undeclared_mem_iff hitem]
    refine and_congr_right fun hname => ?_
    rw [mem_declared_names_iff hitem hfirst hname, declares_placeholder_iff (hurl.symm ▸ hname)]
    simp only [not_or, not_not]
    exact and_comm

/-- A dump whose one entry has a default value for a placeholder, and a
requirement whose name no placeholder can have. -/
def archiveDump : OrderedMap String Json where
  entries := [("archive", .object [
    ("path", .string "/archive/\x7bpage\x7d/\x7bfrom/to\x7d"),
    ("method", .string "GET"),
    ("defaults", .object [("page", .string "1")]),
    ("requirements", .object [("from/to", .string "[0-9]+")])])]
  distinct := by decide

/-- The entry of the dump, as it is read. -/
def archiveEntry : Entry where
  name := "archive"
  url := "/archive/\x7bpage\x7d/\x7bfrom/to\x7d"
  verbs := [.get]
  defaults := [("page", "1")]
  requirements := [("from/to", "[0-9]+")]

/-- The document of the dump has an operation under the URL of its entry. -/
theorem exists_item_of_archiveDump :
    ∃ item,
      (documentOfDump archiveDump defaultHost defaultBasePath).paths.get? archiveEntry.url
        = some item ∧ item.operations ≠ [] := by
  refine ⟨_, (Option.some_get (?_ : Option.isSome _ = true)).symm, ?_⟩
  · decide +kernel
  · decide +kernel

/-- The dump's URL has a placeholder with a default value, which is reported
as undeclared, and a requirement whose name holds a slash, which is not
reported as a parameter that is not required. -/
theorem findings_of_archiveDump :
    ∃ item,
      (documentOfDump archiveDump defaultHost defaultBasePath).paths.get? archiveEntry.url
        = some item ∧
      item.operations ≠ [] ∧
      .undeclared archiveEntry.url "page"
        ∈ findings (documentOfDump archiveDump defaultHost defaultBasePath) ∧
      .notRequired archiveEntry.url "from/to"
        ∉ findings (documentOfDump archiveDump defaultHost defaultBasePath) := by
  obtain ⟨item, hitem, hoperations⟩ := exists_item_of_archiveDump
  obtain ⟨e, hfirst, hrequired, -, hundeclared⟩ :=
    findings_of_dump archiveDump defaultHost defaultBasePath hitem hoperations
  have hentry : firstAnswering archiveEntry.url (usable archiveDump.entries)
      = some archiveEntry := by
    decide +kernel
  obtain rfl : archiveEntry = e := Option.some.inj (hentry.symm.trans hfirst)
  exact ⟨item, hitem, hoperations, (hundeclared "page").2 (by decide +kernel), hrequired _⟩

/-- A default value keeps a placeholder from being declared, and a
requirement can be taken for a placeholder that is none. -/
theorem archiveDump_not_valid :
    findings (documentOfDump archiveDump defaultHost defaultBasePath)
        = [.undeclared archiveEntry.url "page", .notInTemplate archiveEntry.url "from/to"] ∧
      ∃ item,
        (documentOfDump archiveDump defaultHost defaultBasePath).paths.get? archiveEntry.url
          = some item ∧ item.operations ≠ [] :=
  ⟨by decide +kernel, exists_item_of_archiveDump⟩

end RouteDoc.Dump
