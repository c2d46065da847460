import RouteDoc.Proofs.Dump.Absorb
import RouteDoc.Proofs.Dump.Reimport
import RouteDoc.Proofs.Extraction.Outcome

/-!
# `RouteDoc.Proofs.Dump.Frame`: what the import of a dump leaves alone

An import works on the set in place, so it matters what it does to the
routes that the dump is not about, and what is left of it when it fails.
It fails before it has changed anything; otherwise it changes the first
route of each name that is the key of an entry that can be read, and
appends routes for the names that are new (`Imported`).

The names are those that the routes have: this is about sets in which no
route has been renamed since it was appended (`RouteSet.Unrenamed`).

* `imported_importEntries`: what becomes of the set.
* `warnings_importEntries`: what is said on the way.
* `importInto_frame`: the import of any file into any set.
-/

set_option autoImplicit false

namespace RouteDoc.Dump

open Route

variable {s : RouteSet} {name : String} {description : Json} {entries : List (String × Json)}

/-! ### Entries as the dump has them -/

/-- Whether an entry can be read: it is an object whose path is a
string. -/
def isUsable (entry : String × Json) : Bool := (pathOf? entry.2).isSome

/-- The URL that a description gives. -/
def urlOf (description : Json) : String :=
  Text.onChars plainSlashes ((pathOf? description).getD "")

/-- The methods that a description names, as it writes them. -/
def methodsOf : Json → String
  | .object fields => ((Json.member? "method" fields).bind Json.string?).getD anyMethod
  | _ => anyMethod

/-- The warnings about an entry: one that it is skipped, or one for each
method that is not supported. -/
def entryWarnings : String × Json → List Notice
  | (name, .object fields) =>
    match pathOf? (.object fields) with
    | none => [.entryWithoutPath name]
    | some _ => (unsupportedMethods (methodsOf (.object fields))).map .unsupportedMethod
  | (name, _) => [.entryNotAnObject name]

/-- The entries that can be read and have names that no route has. -/
def newEntries (s : RouteSet) (entries : List (String × Json)) : List (String × Json) :=
  entries.filter fun entry => isUsable entry && entry.1 ∉ s.routes.map Route.name

/-- The members of a member of a description, as literals. -/
def literalsUnder (key : String) : Json → List (String × String)
  | .object fields => literalsOf (Json.member? key fields)
  | _ => []

/-- The entry of a description with a path: its parts are read off the
description one by one, and none of them can keep the entry from being read. -/
theorem read_eq_of_path {path : String} (h : pathOf? description = some path) (name : String) :
    (Entry.read name description).value = some
      { name
        url := urlOf description
        verbs := verbsOf (methodsOf description)
        defaults := literalsUnder "defaults" description
        requirements := literalsUnder "requirements" description } := by
  cases description with
  | object fields =>
      have hpath : (Json.member? "path" fields).bind Json.string? = some path := h
      rw [Entry.read, hpath, urlOf, h]
      rfl
  | _ => cases h

/-- What an entry says of a route, if it can be read. This is the part of
`read_eq_of_path` that does not depend on how parameters are made. -/
theorem read_of_path {path : String} (h : pathOf? description = some path) (name : String) :
    ∃ e, (Entry.read name description).value = some e ∧ e.name = name ∧
      e.url = urlOf description ∧ e.verbs = verbsOf (methodsOf description) :=
  ⟨_, read_eq_of_path h name, rfl, rfl, rfl⟩

/-- A description without a path, or one that is no object, gives no entry. -/
theorem read_of_no_path (h : pathOf? description = none) (name : String) :
    (Entry.read name description).value = none := by
  cases description with
  | object fields =>
      have hpath : (Json.member? "path" fields).bind Json.string? = none := h
      rw [Entry.read, hpath]
      rfl
  | _ => rfl

/-- Methods of which none is supported are no verbs. The text must not stand
for any method, since that means all four. -/
theorem verbsOf_of_unsupported {methods : String} (hany : isAnyMethod methods.toList = false)
    (h : ∀ token ∈ methods.toList.splitOn '|', Verb.parse? (String.ofList token) = none) :
    verbsOf methods = [] := by
  have hnone : (methods.toList.splitOn '|').filterMap (Verb.parse? ∘ String.ofList) = [] :=
    List.filterMap_eq_nil_iff.2 h
  rw [verbsOf, if_neg (by simp [hany]), hnone, List.foldl_nil]

/-! ### Warnings -/

/-- The notices of reading an entry are the warnings that belong to it,
computed from the entry alone. -/
theorem notices_read (name : String) (description : Json) :
    (Entry.read name description).notices = entryWarnings (name, description) := by
  cases description with
  | object fields =>
      simp only [Entry.read, entryWarnings, pathOf?]
      cases (Json.member? "path" fields).bind Json.string? with
      | none => rfl
      | some path => exact List.append_nil _
  | _ => rfl

/-- Whatever is said of an entry while it is read is a warning. -/
theorem isWarning_of_mem_entryWarnings {entry : String × Json} {notice : Notice}
    (h : notice ∈ entryWarnings entry) : notice.isWarning = true := by
  unfold entryWarnings at h
  split at h
  · split at h
    · rw [List.mem_singleton.1 h]
      rfl
    · obtain ⟨token, -, rfl⟩ := List.mem_map.1 h
      rfl
  · rw [List.mem_singleton.1 h]
    rfl

/-- Importing an entry warns of nothing but what reading it warns of: that a
route is added is said, but not as a warning. -/
theorem warnings_importEntry (s : RouteSet) (name : String) (description : Json) :
    (importEntry s name description).notices.filter Notice.isWarning
      = entryWarnings (name, description) := by
  have hread : (entryWarnings (name, description)).filter Notice.isWarning
      = entryWarnings (name, description) :=
    List.filter_eq_self.2 fun _ => isWarning_of_mem_entryWarnings
  rw [importEntry, Noted.notices_bind, List.filter_append, notices_read, hread]
  cases (Entry.read name description).value with
  | none => exact List.append_nil _
  | some e =>
      have hquiet : (s.updateNotices e.url name).filter Notice.isWarning = [] := by
        unfold RouteSet.updateNotices
        split <;> rfl
      rw [Noted.notices_bind, List.filter_append]
      show _ ++ ((s.updateNotices e.url name).filter Notice.isWarning ++ []) = _
      rw [hquiet, List.append_nil, List.append_nil]

/-- The warnings of an import are those of its entries, in their order and
whatever the set they are imported into. -/
theorem warnings_importEntries (s : RouteSet) (entries : List (String × Json)) :
    (importEntries s entries).notices.filter Notice.isWarning = entries.flatMap entryWarnings := by
  induction entries generalizing s with
  | nil => rfl
  | cons entry entries ih =>
      obtain ⟨name, description⟩ := entry
      rw [importEntries, Noted.notices_bind, List.filter_append, warnings_importEntry, ih,
        List.flatMap_cons]

/-! ### The set -/

/-- An entry that can be read is the first of the usable ones. -/
theorem usable_cons_of_read {e : Entry} (h : (Entry.read name description).value = some e)
    (entries : List (String × Json)) :
    usable ((name, description) :: entries) = e :: usable entries :=
  List.filterMap_cons_some h

/-- An entry without a path is left out of the usable ones. -/
theorem usable_cons_of_no_path (h : pathOf? description = none) (name : String)
    (entries : List (String × Json)) :
    usable ((name, description) :: entries) = usable entries :=
  List.filterMap_cons_none (read_of_no_path h name)

/-- Entries that cannot be read do nothing, so they may be left out of the
dump beforehand. -/
theorem usable_filter (entries : List (String × Json)) :
    usable (entries.filter isUsable) = usable entries := by
  rw [usable, List.filterMap_filter]
  refine List.filterMap_congr fun entry _ => ?_
  split
  · rfl
  · next hunusable =>
    exact (read_of_no_path (by simpa [isUsable] using hunusable) entry.1).symm

/-- An entry that was read comes from a description with a path, and its name
is the key of the description. -/
theorem exists_mem_of_mem_usable {e : Entry} (h : e ∈ usable entries) :
    ∃ entry ∈ entries, isUsable entry = true ∧ entry.1 = e.name := by
  obtain ⟨⟨name, description⟩, hentry, hread⟩ := List.mem_filterMap.1 h
  refine ⟨(name, description), hentry, ?_, (name_of_read hread).symm⟩
  by_contra hunusable
  have hnone := read_of_no_path (by simpa [isUsable] using hunusable) name
  cases hnone.symm.trans hread

/-- The entries whose names are new, with their URLs: the same list, whether
it is taken from the entries that were read or from the dump itself. -/
theorem identities_added (s : RouteSet) (entries : List (String × Json)) :
    (added (usable entries) s.routes).map (fun e => (e.url, e.name))
      = (newEntries s entries).map fun entry => (urlOf entry.2, entry.1) := by
  induction entries with
  | nil => rfl
  | cons entry entries ih =>
      obtain ⟨name, description⟩ := entry
      cases hpath : pathOf? description with
      | none =>
          rw [usable_cons_of_no_path hpath, newEntries,
            List.filter_cons_of_neg (by simp [isUsable, hpath])]
          exact ih
      | some path =>
          obtain ⟨e, hread, rfl, hurl, -⟩ := read_of_path hpath name
          rw [usable_cons_of_read hread, added_cons, newEntries, List.filter_cons]
          by_cases hmem : e.name ∈ s.routes.map Route.name
          · rw [if_pos hmem, if_neg (by simp [hmem])]
            exact ih
          · rw [if_neg hmem, if_pos (by simpa [isUsable, hpath] using hmem), List.map_cons,
              List.map_cons, hurl]
            congr 1

/-- The set `t` is what `s` becomes when a dump with these entries is
imported, as far as the dump is about it. -/
structure Imported (s : RouteSet) (entries : List (String × Json)) (t : RouteSet) : Prop where
  /-- A route stays as it is where it stands unless it is the first of its
  name, and its name is the key of an entry that can be read. -/
  untouched : ∀ {i r}, s.routes[i]? = some r →
    (r.name ∈ (s.routes.take i).map Route.name ∨
      ∀ entry ∈ entries, isUsable entry = true → entry.1 ≠ r.name) →
    t.routes[i]? = some r
  /-- The set grows by the entries that can be read and whose names are
  new. -/
  size : t.size = s.size + (newEntries s entries).length
  /-- Their routes are appended in the order of the entries, and no other
  route gets another URL or name. -/
  identities : t.routes.map identity
    = s.routes.map identity ++ (newEntries s entries).map fun entry => (urlOf entry.2, entry.1)
  /-- The entries that cannot be read might as well not be there. -/
  skipped : t = (importEntries s (entries.filter isUsable)).value
  /-- An entry that can be read, but has no method that is supported, leaves
  the route of its name as it is, or appends it without verbs. -/
  verbless : ∀ {name description}, (name, description) ∈ entries →
    isUsable (name, description) = true →
    isAnyMethod (methodsOf description).toList = false →
    (∀ token ∈ (methodsOf description).toList.splitOn '|',
      Verb.parse? (String.ofList token) = none) →
    t.find? name = some ((s.find? name).getD (bare (urlOf description) name))

/-- Importing entries with distinct keys does what `Imported` says. The keys
of a JSON object are distinct, so this covers every dump. -/
theorem imported_importEntries (hs : s.Unrenamed) (hkeys : (entries.map Prod.fst).Nodup) :
    Imported s entries (importEntries s entries).value := by
  have hnodup : ((usable entries).map Entry.name).Nodup :=
    (names_usable_sublist entries).nodup hkeys
  have hroutes := routes_importEntries hs.named entries
  have hidentities : (importEntries s entries).value.routes.map identity
      = s.routes.map identity
        ++ (newEntries s entries).map fun entry => (urlOf entry.2, entry.1) := by
    rw [hroutes, identities_absorb hnodup, identities_added]
  refine ⟨fun {i r} hr hfree => ?_, ?_, hidentities, ?_, ?_⟩
  · -- The routes that were there stand before the appended ones.
    have hlt : i < (refresh (usable entries) s.routes).length := by
      rw [length_refresh]
      exact (List.getElem?_eq_some_iff.1 hr).1
    rw [hroutes, absorb_eq hnodup, List.getElem?_append_left hlt, getElem?_refresh hnodup, hr,
      Option.map_some]
    rcases hfree with hearlier | hother
    · rw [if_pos hearlier]
    · have hnot : r.name ∉ (usable entries).map Entry.name := by
        intro hmem
        obtain ⟨e, he, hname⟩ := List.mem_map.1 hmem
        obtain ⟨entry, hentry, husable, hkey⟩ := exists_mem_of_mem_usable he
        exact hother entry hentry husable (hkey.trans hname)
      rw [touched_of_not_mem hnot, ite_self]
  · simpa [RouteSet.size] using congrArg List.length hidentities
  · rw [value_importEntries, value_importEntries, usable_filter]
  · intro name description hmem husable hany htokens
    obtain ⟨path, hpath⟩ := Option.isSome_iff_exists.1 husable
    obtain ⟨e, hread, rfl, hurl, hverbs⟩ := read_of_path hpath name
    -- An entry works on the verbs that it names, one by one.
    have happly : ∀ r, e.apply r = r := by
      intro r
      rw [Entry.apply, hverbs, verbsOf_of_unsupported hany htokens, List.foldl_nil]
    have he : e ∈ usable entries := List.mem_filterMap.2 ⟨_, hmem, hread⟩
    rw [(unrenamed_importEntries hs entries).named.find?_eq, hroutes, find?_absorb hnodup he,
      happly, hs.named.find?_eq, hurl]

/-! ### Files -/

/-- A path with a file that can be read leads somewhere. -/
theorem pathExists_of_readText {disk : Files.Disk} {path : Files.Path} {text : String}
    (h : disk.readText path = .ok text) : disk.pathExists path = true := by
  unfold Files.Disk.readText at h
  unfold Files.Disk.pathExists
  cases hlookup : disk.lookup path with
  | error fault =>
      rw [hlookup] at h
      cases h
  | ok node => rfl

/-- A text is a dump exactly when it is a JSON object. -/
theorem entries?_eq_ok_iff {path : Files.Path} {text : String} :
    entries? path text = .ok entries ↔ Json.parse text.toList = some (.object entries) := by
  unfold entries?
  cases Json.parse text.toList with
  | none => simp
  | some value => cases value <;> simp

/-- When the path leads somewhere, a dump is read exactly when there is a file
with a JSON object in it. Otherwise the import has an error to report. -/
theorem dumpEntries_eq_ok_iff {disk : Files.Disk} {path : Files.Path}
    (hexists : disk.pathExists path = true) :
    dumpEntries disk path = .ok entries
      ↔ ∃ text, disk.readText path = .ok text ∧
          Json.parse text.toList = some (.object entries) := by
  unfold dumpEntries
  rw [if_pos hexists]
  cases hread : disk.readText path with
  | error fault => simp
  | ok text => simp [entries?_eq_ok_iff]

/-- A file that is there cannot be imported exactly if it does not hold a
text that is an object. -/
theorem exists_dumpEntries_eq_error_iff {disk : Files.Disk} {path : Files.Path} :
    (∃ fault, dumpEntries disk path = .error fault)
      ↔ disk.pathExists path = true ∧
          ∀ text, disk.readText path = .ok text → Json.writtenMembers text.toList = none := by
  constructor
  · rintro ⟨fault, hfault⟩
    have hexists : disk.pathExists path = true := by
      by_contra hmissing
      simp [dumpEntries, hmissing] at hfault
    refine ⟨hexists, fun text hread => ?_⟩
    by_contra hsome
    obtain ⟨written, hwritten⟩ := Option.ne_none_iff_exists'.1 hsome
    have hparse := Json.parse_eq_object_iff.2 ⟨written, hwritten, rfl⟩
    rw [(dumpEntries_eq_ok_iff hexists).2 ⟨text, hread, hparse⟩] at hfault
    cases hfault
  · rintro ⟨hexists, hnone⟩
    cases hdump : dumpEntries disk path with
    | error fault => exact ⟨fault, rfl⟩
    | ok entries =>
        obtain ⟨text, hread, hparse⟩ := (dumpEntries_eq_ok_iff hexists).1 hdump
        obtain ⟨written, hwritten, -⟩ := Json.parse_eq_object_iff.1 hparse
        rw [hnone text hread] at hwritten
        cases hwritten

/-- A file that is not there is not read: the set stays as it is, it is said
that the file is missing, and the run goes on. -/
theorem importInto_missing {disk : Files.Disk} {path : Files.Path}
    (h : disk.pathExists path = false) (s : RouteSet) :
    (importInto disk path).run.run s
      = ⟨(.ok (), s), [.readingDump path, .dumpMissing path]⟩ := by
  unfold importInto
  rw [h]
  rfl

/-- What is said when a file is imported: that it is read, and what there
is to say about its entries. -/
theorem notices_importInto {disk : Files.Disk} {path : Files.Path} {text : String}
    (hread : disk.readText path = .ok text)
    (hparse : Json.parse text.toList = some (.object entries)) (s : RouteSet) :
    ((importInto disk path).run.run s).notices
      = .readingDump path :: (importEntries s entries).notices := by
  unfold importInto
  rw [pathExists_of_readText hread, hread]
  -- The steps around the import add nothing to its notices.
  have hquiet : ∀ ns : List Notice,
      [Notice.readingDump path] ++ [] ++ [] ++ ([] ++ [] ++ (ns ++ [] ++ [] ++ ([] ++ [])))
        = .readingDump path :: ns := by
    simp
  simp only [if_true, entries?_eq_ok_iff.2 hparse]
  exact hquiet (importEntries s entries).notices

/-- The import of a file into a set, in place. If the file is not there,
this is said and nothing else happens. If the file is there, but does not
hold a text that is a JSON object, the import fails, and the set is as it
was. If it does, the dump has the members that the text writes, where a
key that is repeated counts at its first position with its last value;
the set becomes what is `Imported` from them, and each entry has its
warnings. -/
theorem importInto_frame (hs : s.Unrenamed) (disk : Files.Disk) (path : Files.Path) :
    let run := (importInto disk path).run.run s
    (disk.pathExists path = false →
      run.value = (.ok (), s) ∧
      run.warnings = ["Symfony route dump doesn't exist: " ++ path.shown]) ∧
    ((∃ fault, run.value.1 = .error fault) ↔
      disk.pathExists path = true ∧
        ∀ text, disk.readText path = .ok text → Json.writtenMembers text.toList = none) ∧
    ((∃ fault, run.value.1 = .error fault) → run.value.2 = s) ∧
    ∀ text written, disk.readText path = .ok text →
      Json.writtenMembers text.toList = some written →
      run.value.1 = .ok () ∧
      ∃ entries : List (String × Json),
        entries.map Prod.fst = (written.map Prod.fst).eraseDups ∧
        (∀ key, Json.member? key entries = Json.member? key written.reverse) ∧
        Imported s entries run.value.2 ∧
        run.warnings = (entries.flatMap entryWarnings).map Notice.text := by
  intro run
  have hvalue : run.value = _ := value_importInto disk path s
  have hfails : (∃ fault, run.value.1 = .error fault)
      ↔ ∃ fault, dumpEntries disk path = .error fault := by
    rw [hvalue]
    cases dumpEntries disk path <;> simp
  refine ⟨fun hmissing => ?_, hfails.trans exists_dumpEntries_eq_error_iff, fun hfault => ?_,
    fun text written hread hwritten => ?_⟩
  · have hrun : run = _ := importInto_missing hmissing s
    rw [hrun]
    exact ⟨rfl, rfl⟩
  · obtain ⟨fault, hfault⟩ := hfails.1 hfault
    rw [hvalue, hfault]
  · have hparse := Json.parse_eq_object_iff.2 ⟨written, hwritten, rfl⟩
    have hdump : dumpEntries disk path = .ok (Json.merge written) :=
      (dumpEntries_eq_ok_iff (pathExists_of_readText hread)).2 ⟨text, hread, hparse⟩
    rw [hvalue, hdump]
    refine ⟨rfl, Json.merge written, Json.keys_merge written, fun key => ?_,
      imported_importEntries hs (Json.nodup_keys_merge written), ?_⟩
    · rw [Json.member?, Json.member?, Json.find?_merge]
    · have hnotices : run.notices = .readingDump path :: (importEntries s _).notices :=
        notices_importInto hread hparse s
      have hquiet : ¬(Notice.readingDump path).isWarning = true := Bool.false_ne_true
      rw [Noted.warnings, hnotices, List.filter_cons_of_neg hquiet, warnings_importEntries]

/-- A set with two routes named `list`, and a route that has been given the
URL of one of them. -/
def twofoldSet : RouteSet :=
  (((RouteSet.insertByUrl ∅ (bare "/a" "list")).1.insertByUrl (bare "/b" "list")).1.updateByName
    "/show" "show" fun r => { r.attach (.empty .post) with url := "/a" })

/-- The set in which one name stands twice comes from insertions and an update
that renames nothing. -/
theorem unrenamed_twofoldSet : twofoldSet.Unrenamed :=
  ((RouteSet.Unrenamed.empty.insertByUrl _).insertByUrl _).updateByName _ _ fun _ => rfl

/-- A dump that writes a key twice, the first time with what is no
description, and names a method that is not supported. -/
def mixedDumpText : String :=
  "\x7b\"list\":[],\"none\":\x7b\x7d,\"new\":\x7b\"path\":\"\\/n\",\"method\":\"HEAD\"\x7d,"
    ++ "\"list\":\x7b\"path\":\"/l\",\"method\":\"PUT\"\x7d\x7d"

def mixedDumpDisk : Files.Disk where
  root := .directory .all [(Text.bytes "dump", .file .all mixedDumpText.toUTF8)]
  workingDirectory := []

/-- The second route named `list` is not touched, and an entry of which no
method is supported appends a route without verbs. -/
theorem importInto_frame_mixedDump :
    twofoldSet.Unrenamed ∧
    let run := (importInto mixedDumpDisk (Text.bytes "dump")).run.run twofoldSet
    run.value.1 = .ok () ∧
    (run.warnings = ["Skipping route 'none': no path", "Unsupported HTTP method 'HEAD' skipped"] ∧
      run.value.2.routes.map (fun r => (r.url, r.name, r.verbs))
        = [("/a", "list", [.put]), ("/b", "list", []), ("/a", "show", [.post]),
          ("/n", "new", [])]) ∧
    ∃ entries : List (String × Json),
      entries.map Prod.fst = ["list", "none", "new"] ∧
      Imported twofoldSet entries run.value.2 := by
  have hread : mixedDumpDisk.readText (Text.bytes "dump") = .ok mixedDumpText := by decide +kernel
  have hkeys : (Json.writtenMembers mixedDumpText.toList).map (List.map Prod.fst)
      = some ["list", "none", "new", "list"] := by
    decide +kernel
  obtain ⟨written, hwritten, hwrittenKeys⟩ := Option.map_eq_some_iff.1 hkeys
  obtain ⟨-, -, -, himport⟩ := importInto_frame unrenamed_twofoldSet mixedDumpDisk
    (Text.bytes "dump")
  obtain ⟨hok, entries, hentries, -, himported, -⟩ := himport mixedDumpText written hread hwritten
  refine ⟨unrenamed_twofoldSet, hok, by decide +kernel, entries, ?_, himported⟩
  rw [hentries, hwrittenKeys]
  decide

end RouteDoc.Dump
