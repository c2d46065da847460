import RouteDoc.Extraction
import RouteDoc.Proofs.Dump.Import
import RouteDoc.Proofs.Json.Members
import RouteDoc.Proofs.RouteSet.Urls

/-!
# `RouteDoc.Proofs.Extraction.Outcome`: what a run yields, apart from its notices

A run reports as it goes, but nothing that it reports decides what it
yields. `outcome` forgets the notices. The outcome of an extractor is
then a plain function of the disk and of the set before it:

* `value_importInto`, `outcome_importFile`: a dump contributes its entries
  (`dumpEntries`), or leaves the set alone.
* `value_docblockRoutes`: the docblocks contribute the routes of each
  source file in turn (`sourceRoutes`).
* `outcome_step`, `outcome_extract`: an extractor, and several in turn.
-/

set_option autoImplicit false

namespace RouteDoc

/-! ### Forgetting notices -/

section Outcome

variable {ε α β : Type}

/-- What a step that may fail yields. -/
def outcome (x : ExceptT ε Noted α) : Except ε α := x.run.value

/-- The second of two steps goes on from what the first one yields. The
notices of both are put together beside the value and do not bear on it. -/
@[simp] theorem outcome_bind (x : ExceptT ε Noted α) (f : α → ExceptT ε Noted β) :
    outcome (x >>= f) = outcome x >>= fun a => outcome (f a) := by
  -- The notices of both steps are put together beside the value.
  show (ExceptT.bindCont f x.run.value).value = _
  unfold outcome
  cases x.run.value <;> rfl

/-- Steps over a list, one after the other: their outcome is that of the
outcomes. -/
theorem outcome_foldlM {σ : Type} (f : σ → α → ExceptT ε Noted σ) (s : σ) (xs : List α) :
    outcome (xs.foldlM f s) = xs.foldlM (fun s a => outcome (f s a)) s := by
  induction xs generalizing s with
  | nil => rfl
  | cons a xs ih =>
      simp only [List.foldlM_cons, outcome_bind]
      congr 1
      funext t
      exact ih t

end Outcome

/-! ### A dump -/

namespace Dump

/-- The entries of the dump at a path. A dump that is not there has
none. -/
def dumpEntries (disk : Files.Disk) (path : Files.Path) : Except Fault (List (String × Json)) :=
  if disk.pathExists path then
    match disk.readText path with
    | .error fault => .error (.unreadable fault)
    | .ok text => entries? path text
  else .ok []

/-- A dump goes into the set once all of it has been read: if it cannot be
read, the set is as it was. -/
theorem value_importInto (disk : Files.Disk) (path : Files.Path) (s : RouteSet) :
    ((importInto disk path).run.run s).value
      = match dumpEntries disk path with
        | .error fault => (.error fault, s)
        | .ok entries => (.ok (), (importEntries s entries).value) := by
  unfold importInto dumpEntries
  cases disk.pathExists path with
  | false => rfl
  | true =>
      cases disk.readText path with
      | error fault => rfl
      | ok text =>
          simp only [if_true]
          cases entries? path text <;> rfl

/-- A dump contributes its entries if it can be read, and otherwise its error. -/
theorem outcome_importFile (disk : Files.Disk) (path : Files.Path) (s : RouteSet) :
    outcome (importFile disk path s)
      = dumpEntries disk path >>= fun entries => .ok (importEntries s entries).value := by
  have hrun : outcome (importFile disk path s)
      = ((importInto disk path).run.run s).value.1.map
          fun () => ((importInto disk path).run.run s).value.2 := rfl
  rw [hrun, value_importInto]
  cases dumpEntries disk path <;> rfl

/-- The keys of a dump are distinct, because the parser keeps one member for
each key of an object. -/
theorem nodup_of_dumpEntries {disk : Files.Disk} {path : Files.Path}
    {entries : List (String × Json)} (h : dumpEntries disk path = .ok entries) :
    (entries.map Prod.fst).Nodup := by
  unfold dumpEntries at h
  split at h
  · split at h
    · cases h
    · -- A dump that was read is a parsed object, so its keys were merged.
      unfold entries? at h
      split at h
      · cases h
      · next text _ _ hparse =>
        cases h
        exact Json.nodup_keys_of_parse hparse
      · cases h
  · cases h
    exact List.Pairwise.nil

end Dump

/-! ### Source files -/

namespace Extraction

variable (disk : Files.Disk)

/-- The routes of a source file; a file that does not hold text has
none. -/
def routesIn (path : Files.Path) : List Route :=
  match disk.readText path with
  | .ok text => (Docblock.extract text).value
  | .error _ => []

/-- The routes of the source files below a directory, file by file in
the order of the scan. -/
def sourceRoutes (directory : Files.Path) (extension : String) : List Route :=
  (disk.scan directory extension).files.flatMap (routesIn disk)

/-- The routes of a file, without what is said while it is read. A file that
cannot be read has none. -/
theorem value_routesOfFile (path : Files.Path) :
    (routesOfFile disk path).value = routesIn disk path := by
  unfold routesOfFile routesIn
  cases disk.readText path <;> rfl

/-- The routes of several files, one file after the other. -/
theorem value_routesOfFiles (paths : List Files.Path) :
    (routesOfFiles disk paths).value = paths.flatMap (routesIn disk) := by
  induction paths with
  | nil => rfl
  | cons path paths ih =>
      simp only [routesOfFiles, Noted.value_bind, Noted.value_pure, value_routesOfFile, ih,
        List.flatMap_cons]

/-- The docblocks below a directory contribute the routes of its source
files. -/
theorem value_docblockRoutes (directory : Files.Path) (extension : String) :
    (docblockRoutes disk directory extension).value = sourceRoutes disk directory extension :=
  value_routesOfFiles disk _

/-! ### Extractors -/

/-- What an extractor makes of a set. -/
def contribute (sources : Sources) (s : RouteSet) (extractor : Extractor) :
    Except Dump.Fault RouteSet :=
  match extractor.source? sources with
  | none => .ok s
  | some source =>
    match extractor with
    | .docblocks => .ok (s.insertAllByUrl (sourceRoutes disk source sources.extension))
    | .dump =>
      Dump.dumpEntries disk source >>= fun entries => .ok (Dump.importEntries s entries).value

/-- One extractor contributes what its source gives, and nothing if it has
none. -/
theorem outcome_step (sources : Sources) (s : RouteSet) (extractor : Extractor) :
    outcome (step disk sources s extractor) = contribute disk sources s extractor := by
  unfold step contribute
  cases hsource : extractor.source? sources with
  | none => rfl
  | some source =>
      cases extractor with
      | docblocks =>
          show _ = Except.ok (s.insertAllByUrl (sourceRoutes disk source sources.extension))
          rw [← value_docblockRoutes]
          rfl
      | dump =>
          simp only [outcome_bind, extractFrom, Dump.outcome_importFile]
          cases Dump.dumpEntries disk source <;> rfl

/-- The outcome of several extractors: each of them contributes to what those
before it have left, and the first error ends the run. -/
theorem outcome_extract (sources : Sources) (extractors : List Extractor) :
    outcome (extract disk sources extractors)
      = extractors.foldlM (contribute disk sources) ∅ := by
  rw [extract, outcome_foldlM]
  congr 1
  funext s extractor
  exact outcome_step disk sources s extractor

end Extraction

end RouteDoc
