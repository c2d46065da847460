import RouteDoc.Proofs.Dump.Absorb
import RouteDoc.Proofs.Extraction.Outcome
import RouteDoc.Proofs.Files.Walk

/-!
# `RouteDoc.Proofs.Extraction.Merge`: docblocks and a dump in one run

A run over a source directory and a route dump goes through two phases.
The docblocks fill the empty set by URL: the first route of a URL stays,
and a later one is dropped together with its name. The dump then goes in
by name: it changes the first route of a name and appends a route for
every other entry, whatever its URL. A name that was dropped in the
first phase is therefore new in the second.

* `routes_of_all`: the list of routes after both phases.
* `merge_of_extract`: which routes there are, in which order, and what
  becomes of each of them.
-/

set_option autoImplicit false

namespace RouteDoc.Extraction

open Route

variable {disk : Files.Disk} {directory dump : Files.Path} {extension : String} {s : RouteSet}

/-- A run with both sources yields the set of the docblocks after the
entries of the dump, unless the dump cannot be read. -/
theorem outcome_all (disk : Files.Disk) (directory dump : Files.Path) (extension : String) :
    outcome (extract disk { directory := some directory, dump := some dump, extension }
      Extractor.all)
      = (Dump.dumpEntries disk dump).map fun entries => (Dump.importEntries
          (RouteSet.insertAllByUrl ∅ (sourceRoutes disk directory extension)) entries).value := by
  rw [outcome_extract]
  show (Dump.dumpEntries disk dump >>= fun entries => Except.ok (Dump.importEntries
    (RouteSet.insertAllByUrl ∅ (sourceRoutes disk directory extension)) entries).value)
      >>= pure = _
  cases Dump.dumpEntries disk dump <;> rfl

/-- A run that succeeds has read the dump, and its result is the dump imported
into the routes of the source. -/
theorem dumpEntries_of_all
    (h : outcome (extract disk { directory := some directory, dump := some dump, extension }
      Extractor.all) = .ok s) :
    ∃ entries, Dump.dumpEntries disk dump = .ok entries ∧
      s = (Dump.importEntries
        (RouteSet.insertAllByUrl ∅ (sourceRoutes disk directory extension)) entries).value := by
  rw [outcome_all] at h
  cases hentries : Dump.dumpEntries disk dump with
  | error fault =>
      rw [hentries] at h
      cases h
  | ok entries =>
      rw [hentries] at h
      exact ⟨entries, rfl, (Except.ok.inj h).symm⟩

/-- The list of routes after both phases: the first route of each URL, and the
entries of the dump absorbed by them. The indexes stay right through both. -/
theorem routes_of_all (routes : List Route) (entries : List (String × Json)) :
    let s := (Dump.importEntries (RouteSet.insertAllByUrl ∅ routes) entries).value
    s.Indexed ∧ s.routes = Dump.absorb (Dump.usable entries) (firstOfUrl routes) := by
  have hindexed := RouteSet.indexed_insertAllByUrl RouteSet.indexed_empty routes
  refine ⟨Dump.indexed_importEntries hindexed entries, ?_⟩
  rw [Dump.routes_importEntries hindexed.toNamed,
    RouteSet.routes_insertAllByUrl RouteSet.indexed_empty, ← foldl_insertNew_nil]
  rfl

/-- A run with a source directory and a dump that succeeds puts the two
together as follows. Let `annotated` be the routes of the source files,
in the order of the scan, without those whose URL has come before, and
`es` the entries of the dump that have a path, in order.

First come the routes of `annotated`, then one route for each entry whose
name none of these has; the URLs of the former are distinct, and so are
the names of the latter. Every entry is found by its name, on a route
that answers the verbs of the entry. A route of `annotated` is left alone
if an earlier one has its name or if no entry does, and else it is what
the entry makes of it. -/
theorem merge_of_extract
    (h : (extract disk { directory := some directory, dump := some dump, extension }
      Extractor.all).run.value = .ok s) :
    ∃ entries, Dump.dumpEntries disk dump = .ok entries ∧
      let annotated := firstOfUrl (sourceRoutes disk directory extension)
      let es := Dump.usable entries
      let new := es.filter fun e => e.name ∉ annotated.map Route.name
      -- Which routes there are, and in which order.
      s.routes.map identity = annotated.map identity ++ new.map (fun e => (e.url, e.name)) ∧
      (annotated.map Route.url).Nodup ∧
      (new.map Dump.Entry.name).Nodup ∧ (∀ e ∈ new, e.name ∉ annotated.map Route.name) ∧
      -- The entries are those of the dump that have a path, and their URLs are
      -- these paths with plain slashes.
      List.Forall₂ (fun e (path, name) =>
          Dump.SlashesUnescaped path.toList e.url.toList ∧ e.name = name) es
        (entries.filterMap fun (name, description) =>
          (Dump.pathOf? description).map fun path => (path, name)) ∧
      -- Every entry is found by its name.
      (∀ e ∈ es, ∃ r ∈ s.routes, s.find? e.name = some r ∧ ∀ v ∈ e.verbs, v ∈ r.verbs) ∧
      -- What becomes of each route.
      (∀ i r, annotated[i]? = some r →
        s.routes[i]? = some (if r.name ∈ (annotated.take i).map Route.name then r
          else (es.find? fun e => e.name = r.name).elim r fun e => e.apply r)) ∧
      s.routes.drop annotated.length = new.map fun e => e.apply (bare e.url e.name) := by
  obtain ⟨entries, hentries, rfl⟩ := dumpEntries_of_all h
  obtain ⟨hindexed, hroutes⟩ :=
    routes_of_all (sourceRoutes disk directory extension) entries
  refine ⟨entries, hentries, ?_⟩
  intro annotated es new
  have hnodup : (es.map Dump.Entry.name).Nodup :=
    (Dump.names_usable_sublist entries).nodup (Dump.nodup_of_dumpEntries hentries)
  have hparts : Dump.absorb es annotated = _ := Dump.absorb_eq hnodup
  have hlength := Dump.length_refresh es annotated
  refine ⟨?_, nodup_urls_firstOfUrl _, ?_, ?_, ?_, ?_, ?_, ?_⟩
  · rw [hroutes]
    exact Dump.identities_absorb hnodup
  · exact (List.filter_sublist.map Dump.Entry.name).nodup hnodup
  · intro e he
    simpa using (List.mem_filter.1 he).2
  · exact Dump.forall₂_usable entries
  · intro e he
    have hfind : (Dump.absorb es annotated).find? _ = _ := Dump.find?_absorb hnodup he
    rw [← hroutes] at hfind
    refine ⟨_, List.mem_of_find?_eq_some hfind, (hindexed.find?_eq _).trans hfind, ?_⟩
    exact fun v hv => (Dump.mem_verbs_apply _ _ v).2 (Or.inr hv)
  · intro i r hr
    have hi : i < (Dump.refresh es annotated).length := by
      rw [hlength]
      exact (List.getElem?_eq_some_iff.1 hr).1
    rw [hroutes, hparts, List.getElem?_append_left hi, Dump.getElem?_refresh hnodup, hr]
    rfl
  · rw [hroutes, hparts, ← hlength, List.drop_left]
    rfl

/-- Entries that lie in the order of their names are scanned in that
order, if their directory can be opened. -/
theorem visits_directory_of_sorted {entries : List (Files.Name × Files.Node)}
    {fault? : Files.Place → Option Files.AccessFault} (hopen : fault? [] = none)
    (h : (Files.visitsByEntry entries fault?).Pairwise fun a b => Files.nameLe a b)
    (rights : Files.Rights) :
    Files.visits (.directory rights entries) fault? = { place := [], fault := none }
      :: (Files.visitsByEntry entries fault?).flatMap fun (name, below) =>
        below.map (Files.Visit.below name) := by
  rw [Files.visits, hopen, List.mergeSort_of_pairwise h]

/-- Two source files. The URL of `lost` comes before it, and the name
`x` comes twice. -/
def sharedNamesSources : List (Files.Name × Files.Node) :=
  [(Text.bytes "A.php", .file .all "@Route(\"/a\") @Route(\"/x\", name=\"x\")".toUTF8),
   (Text.bytes "B.php", .file .all ("@Route(\"/a\") @Route(\"/x\", name=\"lost\")"
      ++ " @Route(\"/z\", name=\"x\")").toUTF8)]

/-- The source files with a dump that names `x` and `lost`. There is still
a backslash before a slash of its second path when the escapes of JSON are
gone. -/
def sharedNamesDisk : Files.Disk where
  root := .directory .all
    [(Text.bytes "src", .directory .all sharedNamesSources),
     (Text.bytes "routes.json", .file .all
        ("\x7b\"x\": \x7b\"path\": \"/other\", \"method\": \"POST\"\x7d, "
          ++ "\"lost\": \x7b\"path\": \"/a\\\\/x\"\x7d, \"none\": []\x7d").toUTF8)]
  workingDirectory := []

/-- The directory of the source files, and the dump. -/
def sharedNamesSource : Files.Path := Text.bytes "src"

def sharedNamesDump : Files.Path := Text.bytes "routes.json"

/-- The scan finds both files, in the order of their names. A witness needs
the scan of a fixed disk, and the look-ups on it are stated one by one, so
that none of them has to evaluate the whole walk. -/
theorem scan_sharedNamesDisk :
    (sharedNamesDisk.scan sharedNamesSource "php").files
      = [Text.bytes "src/A.php", Text.bytes "src/B.php"] := by
  have hlookup : sharedNamesDisk.lookup sharedNamesSource
      = .ok (.directory .all sharedNamesSources) := by
    have hlocate : sharedNamesDisk.locate sharedNamesSource = .ok [sharedNamesSource] := by
      decide +kernel
    exact Files.Disk.lookup_eq_ok_iff.2 ⟨_, hlocate, rfl⟩
  unfold Files.Disk.scan
  -- Both files are in a directory that can be opened.
  simp only [hlookup, visits_directory_of_sorted
    (show sharedNamesDisk.openFault? (Files.Path.joinAll sharedNamesSource []) = none by
      decide +kernel)
    (show (Files.visitsByEntry sharedNamesSources fun place =>
      sharedNamesDisk.openFault? (Files.Path.joinAll sharedNamesSource place)).Pairwise
        fun a b => Files.nameLe a b by decide +kernel)]
  decide +kernel

/-- The entries of the dump that have a path. -/
def sharedNamesEntries : List Dump.Entry :=
  [{ name := "x", url := "/other", verbs := [.post], defaults := [], requirements := [] },
   { name := "lost", url := "/a/x", verbs := Verb.all, defaults := [], requirements := [] }]

/-- The dropped name comes back through the dump, under a URL that is
there once its slash is plain; the second route named `x` is left alone. -/
theorem merge_of_extract_sharedNames :
    ∃ s entries,
      (extract sharedNamesDisk
        { directory := some sharedNamesSource, dump := some sharedNamesDump, extension := "php" }
        Extractor.all).run.value = .ok s ∧
      s.routes.map identity
        = (firstOfUrl (sourceRoutes sharedNamesDisk sharedNamesSource "php")).map identity
          ++ ((Dump.usable entries).filter fun e => e.name ∉
            (firstOfUrl (sourceRoutes sharedNamesDisk sharedNamesSource "php")).map Route.name).map
              (fun e => (e.url, e.name)) ∧
      s.routes.map (fun r => (r.url, r.name, r.verbs))
        = [("/a/x", "x", [.get, .post]), ("/a/z", "x", [.get]), ("/a/x", "lost", Verb.all)] := by
  have hdump : (Dump.dumpEntries sharedNamesDisk sharedNamesDump).toOption.map Dump.usable
      = some sharedNamesEntries := by decide +kernel
  obtain ⟨entries, hentries, husable⟩ := Option.map_eq_some_iff.1 hdump
  have hread : Dump.dumpEntries sharedNamesDisk sharedNamesDump = .ok entries := by
    cases h : Dump.dumpEntries sharedNamesDisk sharedNamesDump with
    | error fault =>
        rw [h] at hentries
        cases hentries
    | ok found =>
        rw [h] at hentries
        exact congrArg Except.ok (Option.some.inj hentries)
  have hok : outcome (extract sharedNamesDisk
      { directory := some sharedNamesSource, dump := some sharedNamesDump, extension := "php" }
      Extractor.all) = .ok (Dump.importEntries
        (RouteSet.insertAllByUrl ∅
          (sourceRoutes sharedNamesDisk sharedNamesSource "php")) entries).value := by
    rw [outcome_all, hread]
    rfl
  obtain ⟨entries', hread', hidentities, -⟩ := merge_of_extract hok
  refine ⟨_, entries', hok, hidentities, ?_⟩
  rw [(routes_of_all _ entries).2, husable, sourceRoutes, scan_sharedNamesDisk]
  decide +kernel

end RouteDoc.Extraction
