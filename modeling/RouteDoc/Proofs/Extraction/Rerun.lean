import RouteDoc.Proofs.Dump.Reimport
import RouteDoc.Proofs.Extraction.Outcome

/-!
# `RouteDoc.Proofs.Extraction.Rerun`: extractors that run more than once

An extractor that has run has nothing to add when it runs again, neither
at once nor after others. For docblocks that is so because the URLs of a
set only ever become more; for a dump, because its entries stay settled.
Hence of several runs of one extractor only the first one counts.

* `exhausted_of_contribute`, `Exhausted.of_contribute`: an extractor that
  has run has nothing to add, and never has again.
* `foldlM_contribute_eraseDups`: any list of extractors.
* `run_extract_eraseDups_and_reimport`: the same of whole runs, and of
  dumps that are imported again.
-/

set_option autoImplicit false

namespace RouteDoc

namespace Extraction

variable {disk : Files.Disk} {sources : Sources} {s s' : RouteSet} {x y : Extractor}

/-! ### One extractor -/

/-- What an extractor of each kind does if it succeeds: nothing when its
source is not given, insertions by URL when it reads doc blocks, and updates
by name when it reads a dump. -/
theorem contribute_eq_ok (h : contribute disk sources s x = .ok s') :
    (x.source? sources = none ∧ s' = s) ∨
    (∃ directory, x = .docblocks ∧ sources.directory = some directory ∧
      s' = s.insertAllByUrl (sourceRoutes disk directory sources.extension)) ∨
    (∃ dump entries, x = .dump ∧ sources.dump = some dump ∧
      Dump.dumpEntries disk dump = .ok entries ∧ s' = (Dump.importEntries s entries).value) := by
  unfold contribute at h
  cases hsource : x.source? sources with
  | none =>
      rw [hsource] at h
      exact Or.inl ⟨rfl, (Except.ok.inj h).symm⟩
  | some source =>
      rw [hsource] at h
      cases x with
      | docblocks =>
          exact Or.inr (Or.inl ⟨source, rfl, hsource, (Except.ok.inj h).symm⟩)
      | dump =>
          cases hentries : Dump.dumpEntries disk source with
          | error fault =>
              simp only [hentries] at h
              cases h
          | ok entries =>
              simp only [hentries] at h
              exact Or.inr (Or.inr ⟨source, entries, rfl, hsource, hentries,
                (Except.ok.inj h).symm⟩)

/-- An extractor without a source leaves the set alone. -/
theorem contribute_of_source_none (h : x.source? sources = none) (s : RouteSet) :
    contribute disk sources s x = .ok s := by
  unfold contribute
  rw [h]

/-- An extractor of doc blocks inserts the routes of the source. -/
theorem contribute_docblocks {directory : Files.Path} (h : sources.directory = some directory)
    (s : RouteSet) :
    contribute disk sources s .docblocks
      = .ok (s.insertAllByUrl (sourceRoutes disk directory sources.extension)) := by
  simp only [contribute, Extractor.source?, h]

/-- An extractor of a dump imports the entries of the dump. -/
theorem contribute_dump {dump : Files.Path} {entries : List (String × Json)}
    (h : sources.dump = some dump) (hentries : Dump.dumpEntries disk dump = .ok entries)
    (s : RouteSet) :
    contribute disk sources s .dump = .ok (Dump.importEntries s entries).value := by
  simp only [contribute, Extractor.source?, h, hentries]
  rfl

/-- Every extractor keeps names leading to one position each. -/
theorem positioned_of_contribute (hs : s.Positioned)
    (h : contribute disk sources s x = .ok s') : s'.Positioned := by
  rcases contribute_eq_ok h with ⟨-, rfl⟩ | ⟨directory, -, -, rfl⟩ | ⟨dump, entries, -, -, -, rfl⟩
  · exact hs
  · exact hs.insertAllByUrl _
  · exact Dump.positioned_importEntries hs entries

/-! ### Running again -/

/-- The set has all that the extractor finds, so that it changes nothing,
now and after others. -/
def Exhausted (disk : Files.Disk) (sources : Sources) (x : Extractor) (s : RouteSet) : Prop :=
  match x with
  | .docblocks => ∀ directory, sources.directory = some directory →
      ∀ r ∈ sourceRoutes disk directory sources.extension, r.url ∈ s.urls
  | .dump => ∀ dump, sources.dump = some dump →
      ∃ entries, Dump.dumpEntries disk dump = .ok entries ∧
        ∀ e ∈ Dump.usable entries, Dump.Settled s e

/-- An extractor is exhausted when it has run: its routes have URLs that are
known now, or its entries are settled. -/
theorem exhausted_of_contribute (hs : s.Positioned)
    (h : contribute disk sources s x = .ok s') : Exhausted disk sources x s' := by
  rcases contribute_eq_ok h with ⟨hsource, rfl⟩ | ⟨directory, rfl, hdirectory, rfl⟩ |
    ⟨dump, entries, rfl, hdump, hentries, rfl⟩
  · cases x with
    | docblocks =>
        intro directory hdirectory
        rw [Extractor.source?, hdirectory] at hsource
        cases hsource
    | dump =>
        intro dump hdump
        rw [Extractor.source?, hdump] at hsource
        cases hsource
  · intro directory' hdirectory' r hr
    rw [hdirectory, Option.some.injEq] at hdirectory'
    subst hdirectory'
    exact (RouteSet.mem_urls_insertAllByUrl s _).2 (Or.inr ⟨r, hr, rfl⟩)
  · intro dump' hdump'
    rw [hdump, Option.some.injEq] at hdump'
    subst hdump'
    refine ⟨entries, hentries, fun e he => ?_⟩
    exact Dump.settled_importEntries hs (Dump.nodup_of_dumpEntries hentries) he

/-- An exhausted extractor adds nothing and cannot fail. -/
theorem Exhausted.contribute (h : Exhausted disk sources x s) :
    contribute disk sources s x = .ok s := by
  cases hsource : x.source? sources with
  | none => exact contribute_of_source_none hsource s
  | some source =>
      cases x with
      | docblocks =>
          rw [contribute_docblocks hsource,
            RouteSet.insertAllByUrl_of_forall_mem (h source hsource)]
      | dump =>
          obtain ⟨entries, hentries, hsettled⟩ := h source hsource
          rw [contribute_dump hsource hentries, Dump.importEntries_of_settled hsettled]

/-- An extractor that is exhausted stays so when another one runs: known URLs
stay known, and entries stay settled through insertions. There is one dump, so
an extractor that imports one changes nothing when its entries are settled. -/
theorem Exhausted.of_contribute (h : Exhausted disk sources x s)
    (hy : Extraction.contribute disk sources s y = .ok s') : Exhausted disk sources x s' := by
  rcases contribute_eq_ok hy with ⟨-, rfl⟩ | ⟨directory, rfl, -, rfl⟩ |
    ⟨dump, entries, rfl, hdump, hentries, rfl⟩
  · exact h
  · cases x with
    | docblocks =>
        intro directory' hdirectory' r hr
        exact (RouteSet.mem_urls_insertAllByUrl s _).2 (Or.inl (h directory' hdirectory' r hr))
    | dump =>
        intro dump hdump
        obtain ⟨entries, hentries, hsettled⟩ := h dump hdump
        exact ⟨entries, hentries, fun e he => (hsettled e he).insertAllByUrl _⟩
  · cases x with
    | docblocks =>
        intro directory hdirectory r hr
        exact Dump.importEntries_induction (P := fun t => r.url ∈ t.urls)
          (h directory hdirectory r hr)
          (fun _ url name f _ ht => RouteSet.mem_urls_updateByName ht url name f) entries
    | dump =>
        -- The other extractor is the same one, which changes nothing.
        have hsame := h.contribute
        rw [contribute_dump hdump hentries, Except.ok.injEq] at hsame
        rwa [hsame]

/-! ### Lists of extractors -/

/-- An exhausted extractor may be left out wherever it comes. -/
theorem foldlM_contribute_filter (h : Exhausted disk sources x s) (xs : List Extractor) :
    (xs.filter fun y => !y == x).foldlM (contribute disk sources) s
      = xs.foldlM (contribute disk sources) s := by
  induction xs generalizing s with
  | nil => rfl
  | cons y ys ih =>
      by_cases hy : y = x
      · subst hy
        rw [List.filter_cons_of_neg (by simp), List.foldlM_cons, h.contribute, ih h]
        rfl
      · rw [List.filter_cons_of_pos (by simpa using hy), List.foldlM_cons, List.foldlM_cons]
        cases hstep : contribute disk sources s y with
        | error fault => rfl
        | ok t => exact ih (h.of_contribute hstep)

/-- Of several runs of an extractor only the first one counts: after it the
extractor is exhausted, so the later ones may be left out. -/
theorem foldlM_contribute_eraseDups {s : RouteSet} (hs : s.Positioned) (xs : List Extractor) :
    xs.eraseDups.foldlM (contribute disk sources) s = xs.foldlM (contribute disk sources) s := by
  match xs with
  | [] => rfl
  | x :: xs =>
      rw [List.eraseDups_cons, List.foldlM_cons, List.foldlM_cons]
      cases hstep : contribute disk sources s x with
      | error fault => rfl
      | ok t =>
          -- From here on `x` is exhausted, so the list without it does the same.
          show ((xs.filter fun y => !y == x).eraseDups).foldlM (contribute disk sources) t = _
          rw [foldlM_contribute_eraseDups (positioned_of_contribute hs hstep),
            foldlM_contribute_filter (exhausted_of_contribute hs hstep)]
          rfl
termination_by xs.length
decreasing_by
  exact Nat.lt_succ_of_le (List.length_filter_le _ _)

/-- Of a list of extractors, each counts only where it first stands: the
run ends with the same fault or the same set as a run without the
repeats.

Of a dump, too, only the first import counts. Take any set that can be
reached, import a dump, insert any routes by URL, and import the dump
again: the set stays as it was before the second import. -/
theorem run_extract_eraseDups_and_reimport :
    (∀ (disk : Files.Disk) (sources : Sources) (extractors : List Extractor),
      (extract disk sources extractors).run.value
        = (extract disk sources extractors.eraseDups).run.value) ∧
    (∀ s : RouteSet, s.Reachable → ∀ (dump : OrderedMap String Json) (rs : List Route),
      let once := (Dump.importEntries s dump.entries).value.insertAllByUrl rs
      (Dump.importEntries once dump.entries).value = once) := by
  refine ⟨fun disk sources extractors => ?_, fun s hs dump rs => ?_⟩
  · show outcome (extract disk sources extractors)
      = outcome (extract disk sources extractors.eraseDups)
    rw [outcome_extract, outcome_extract,
      foldlM_contribute_eraseDups RouteSet.positioned_empty]
  · exact Dump.importEntries_importEntries hs.positioned dump.distinct rs

/-- A set whose first route has been renamed. The name `list` still leads
to it, although it is now the name of the second route. -/
def renamedSet : RouteSet :=
  ((RouteSet.insertByUrl ∅ (Route.bare "/list" "list")).1.updateByName "/list" "list"
    fun r => { r with url := "/index", name := "index" }).insertByUrl
      (Route.bare "/other" "list") |>.1

/-- A dump that gives one parameter a default value, a requirement and a
placeholder. -/
def overlappingDump : OrderedMap String Json where
  entries := [
    ("list", .object [
      ("path", .string "/list/\x7bpage\x7d/\x7bid\x7d"),
      ("method", .string "PUT|GET"),
      ("defaults", .object [("page", .string "1"), ("sort", .string "asc")]),
      ("requirements", .object [("page", .string "\\\\d+")])]),
    ("show", .object [("path", .string "/show")])]
  distinct := by decide

/-- The set with a renamed route is reached by insertions and an update. -/
theorem reachable_renamedSet : renamedSet.Reachable :=
  ((RouteSet.Reachable.empty.insertByUrl _).updateByName _ _ _).insertByUrl _

/-- The dump changes the route that has been renamed, and a route of the
same name that is inserted later is left alone. -/
theorem reimport_overlappingDump :
    renamedSet.Reachable ∧
    let once := (Dump.importEntries renamedSet overlappingDump.entries).value.insertAllByUrl
      [Route.bare "/late" "list", Route.bare "/other" "show"]
    once.routes.map (fun r => (r.url, r.name, r.verbs))
        = [("/index", "index", [.put, .get]), ("/other", "list", []), ("/show", "show", Verb.all),
          ("/late", "list", [])] ∧
      (once.routes.head?.bind fun r => r.profile? .get).map (fun p =>
          p.parameters.map fun param => (param.name, param.location, param.type))
        = some [("page", .path, "integer"), ("sort", .form, "string"), ("id", .path, "integer")] ∧
      (Dump.importEntries once overlappingDump.entries).value = once :=
  ⟨reachable_renamedSet, by decide +kernel, by decide +kernel,
    run_extract_eraseDups_and_reimport.2 renamedSet reachable_renamedSet overlappingDump _⟩

end Extraction

end RouteDoc
