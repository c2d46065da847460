import RouteDoc.Program
import RouteDoc.Proofs.Extraction.Outcome
import RouteDoc.Proofs.Files.Writing

/-!
# `RouteDoc.Proofs.Program.Outputs`: what a run leaves on the disk

A run reads everything before it writes anything. What it writes are its
outputs, one per format, and their paths differ behind the last slash:
each of several formats puts its own ending there. A path leads through
symbolic links, though, and two outputs may be led to one file by them.
There the last one that was written stays. Where no output ends in a link,
no output takes the place of another one.

* `wrote_forM`: writing several outputs, one after the other.
* `outputPath_eq`: the paths of several outputs.
* `endsInLink_of_outputs`: only links lead two outputs to one place.
* `wrote_of_process`: a run that succeeds.
* `process_leaves`: any run.
* `process_unkeptOutputs`: runs with outputs that do not hold their texts.
-/

set_option autoImplicit false

namespace RouteDoc

open Files (Disk)
open CommandLine (Settings)

/-! ### Forgetting notices -/

namespace DiskStep

variable {ε ε' α β : Type}

/-- What a step yields, and the disk after it. -/
def result (x : DiskStep ε α) (disk : Disk) : Except ε α × Disk := (x.run.run disk).value

/-- The second of two steps starts from the disk that the first one leaves,
and is not made if the first one fails. Notices make no difference to the
result. -/
theorem result_bind (x : DiskStep ε α) (f : α → DiskStep ε β) (disk : Disk) :
    result (x >>= f) disk
      = match result x disk with
        | (.ok a, disk') => result (f a) disk'
        | (.error fault, disk') => (.error fault, disk') := by
  -- The notices of both steps are put together beside the value.
  show ((ExceptT.bindCont f (x.run.run disk).value.1).run (x.run.run disk).value.2).value = _
  unfold result
  obtain ⟨_ | _, disk'⟩ := (x.run.run disk).value <;> rfl

/-- Looking at the disk gives the disk and leaves it as it is. -/
theorem result_get (disk : Disk) : result (get : DiskStep ε Disk) disk = (.ok disk, disk) := rfl

/-- A change of the disk that succeeds has been made, and nothing else has. -/
theorem eq_ok_of_result_change {fault : Files.AccessFault → ε}
    {f : Disk → Except Files.AccessFault Disk} {disk disk' : Disk}
    (h : result (change fault f) disk = (.ok (), disk')) : f disk = .ok disk' := by
  simp only [change, result_bind, result_get] at h
  cases hf : f disk with
  | error e =>
      rw [hf] at h
      cases h
  | ok changed =>
      rw [hf] at h
      exact congrArg Except.ok (Prod.mk.inj h).2

/-- Another fault takes the place of a fault only. -/
theorem result_of_adapt {g : ε → ε'} {x : DiskStep ε α} {a : α} {disk disk' : Disk}
    (h : result (ExceptT.adapt g x) disk = (.ok a, disk')) : result x disk = (.ok a, disk') := by
  have hadapt : result (ExceptT.adapt g x) disk
      = ((result x disk).1.mapError g, (result x disk).2) := rfl
  rw [hadapt] at h
  obtain ⟨hvalue, hdisk⟩ := Prod.mk.inj h
  cases hx : (result x disk).1 with
  | error fault =>
      rw [hx] at hvalue
      cases hvalue
  | ok b =>
      rw [hx] at hvalue
      exact Prod.ext (hx.trans (congrArg Except.ok (Except.ok.inj hvalue))) hdisk

/-- What is said before a step makes no difference to its result. -/
theorem result_noteAll_bind (ns : List Notice) (f : Unit → DiskStep ε α) (disk : Disk) :
    result (noteAll ns >>= f) disk = result (f ()) disk := rfl

/-- What is said after a step makes no difference either. -/
theorem result_bind_noteAll (x : DiskStep ε Unit) (ns : List Notice) (disk : Disk) :
    result (do x; noteAll ns) disk = result x disk := by
  rw [result_bind]
  obtain ⟨_ | _, disk'⟩ := result x disk <;> rfl

/-- Two steps in a row succeed only if both do, the second one from the disk
that the first one leaves. -/
theorem exists_of_result_bind {x : DiskStep ε α} {f : α → DiskStep ε β} {b : β}
    {disk disk'' : Disk} (h : result (x >>= f) disk = (.ok b, disk'')) :
    ∃ a disk', result x disk = (.ok a, disk') ∧ result (f a) disk' = (.ok b, disk'') := by
  rw [result_bind] at h
  split at h
  · next a disk' hx => exact ⟨a, disk', hx, h⟩
  · cases h

end DiskStep

/-! ### One output -/

namespace Output

open Files.Disk

variable {path : Files.Path} {text host basePath : String} {d d' : Disk} {format : Format}
  {routes : List Route}

/-- A text that is saved is written where its path leads, after the
directory for it has been made. Both steps must succeed; nothing else is
changed by either. -/
theorem writes_of_save (h : (save path text).result d = (.ok (), d')) :
    ∃ place, Writes path text.toUTF8 place d d' := by
  unfold save at h
  split at h
  · obtain ⟨⟨⟩, between, hmade, h⟩ := DiskStep.exists_of_result_bind h
    obtain ⟨place, hplace⟩ := writeFile_writes (DiskStep.eq_ok_of_result_change h)
    exact ⟨place, (makeDirectories_spares (DiskStep.eq_ok_of_result_change hmade)).writes hplace⟩
  · exact writeFile_writes (DiskStep.eq_ok_of_result_change h)

/-- A format that is written writes its content, and says something before
and after. -/
theorem writes_of_write (h : (write format routes host basePath path).result d = (.ok (), d')) :
    ∃ place, Writes path (content format routes host basePath).toUTF8 place d d' := by
  unfold write at h
  obtain ⟨⟨⟩, before, hnoted, h⟩ := DiskStep.exists_of_result_bind h
  obtain ⟨⟨⟩, saved, hsaved, h⟩ := DiskStep.exists_of_result_bind h
  have hbefore : before = d := (Prod.mk.inj hnoted).2.symm
  have hafter : saved = d' := (Prod.mk.inj h).2
  rw [hbefore, hafter] at hsaved
  exact writes_of_save hsaved

end Output

/-! ### Several outputs -/

namespace Program

open Files.Disk

/-- The disk `d'` is `d` with these texts at these paths, written in this
order. Of those that lead to one place, the last one has been written over
the others. Nothing else has been changed but for new directories. -/
structure Wrote {α : Type} (path : α → Files.Path) (text : α → String) (as : List α)
    (d d' : Disk) : Prop extends Grows d d' where
  written : ∀ before a after, as = before ++ a :: after →
    ∃ place, d'.locate (path a) = .ok place ∧
      ((∀ b ∈ after, d'.locate (path b) ≠ .ok place) →
        d'.leafAt? place = overwritten (text a).toUTF8 (d.leafAt? place))
  untouched : ∀ place, (∀ a ∈ as, d'.locate (path a) ≠ .ok place) →
    d'.leafAt? place = d.leafAt? place

/-- Several outputs, one after the other. The first one is still where its
path leads when all the others have been written, because disks only
grow; what it holds then is up to the others that lead there. -/
theorem wrote_forM {ε α : Type} {path : α → Files.Path} {text : α → String}
    {step : α → DiskStep ε Unit} {as : List α} {d d' : Disk}
    (hstep : ∀ a d d', (step a).result d = (.ok (), d') →
      ∃ place, Writes (path a) (text a).toUTF8 place d d')
    (h : (as.forM step).result d = (.ok (), d')) : Wrote path text as d d' := by
  induction as generalizing d with
  | nil =>
      obtain rfl : d = d' := (Prod.mk.inj h).2
      exact ⟨Grows.refl d, fun before a after heq => by simp at heq, fun _ _ => rfl⟩
  | cons a as ih =>
      obtain ⟨⟨⟩, between, hfirst, hrest⟩ := DiskStep.exists_of_result_bind h
      obtain ⟨place, hwrites⟩ := hstep a d between hfirst
      have hwrote := ih hrest
      have hlocate : d'.locate (path a) = .ok place := hwrote.toGrows.locate hwrites.locate_eq
      refine ⟨hwrites.toGrows.trans hwrote.toGrows, fun before b after heq => ?_, fun q hq => ?_⟩
      · cases before with
        | nil =>
            obtain ⟨rfl, rfl⟩ := List.cons.inj heq
            refine ⟨place, hlocate, fun hlast => ?_⟩
            rw [hwrote.untouched place hlast, hwrites.leafAt?_eq, if_pos rfl]
        | cons first before =>
            obtain ⟨-, hlater⟩ := List.cons.inj heq
            obtain ⟨q, hq, hlast⟩ := hwrote.written before b after hlater
            refine ⟨q, hq, fun hafter => ?_⟩
            rw [hlast hafter, hwrites.leafAt?_eq]
            split
            · exact overwritten_overwritten _ _ _
            · rfl
      · obtain ⟨hfirst, hothers⟩ := List.forall_mem_cons.1 hq
        rw [hwrote.untouched q hothers, hwrites.leafAt?_eq, if_neg]
        rintro rfl
        exact hfirst hlocate

/-! ### The paths of the outputs -/

/-- What a format puts at the end of the path of its output, if it is one
of several: its extension behind a name that is given, and else a name of
its own. -/
def ending (named : Bool) (format : Format) : Files.Path :=
  Text.bytes (if named then format.fileExtension else format.defaultFileName)

/-- Different formats have different endings, with and without a name in
front. -/
theorem ending_injective {named : Bool} {f g : Format} (h : ending named f = ending named g) :
    f = g := by
  revert h
  cases named <;> cases f <;> cases g <;> decide +kernel

/-- An ending is longer than a piece of a path that leads elsewhere, and
has none of the bytes that mean something in a path. -/
theorem ending_plain (named : Bool) (f : Format) :
    2 < (ending named f).length ∧ Files.Path.slash ∉ ending named f ∧ 0 ∉ ending named f := by
  cases named <;> cases f <;> decide +kernel

/-- A base with such an ending is a name: it is not empty, and is too long to
be one of the two moves. -/
theorem isName_append_ending {base : Files.Name} (hslash : Files.Path.slash ∉ base)
    (hnul : 0 ∉ base) (named : Bool) (f : Format) :
    Files.Path.IsName (base ++ ending named f) := by
  obtain ⟨hlength, hslash', hnul'⟩ := ending_plain named f
  have hlong : ∀ short : Files.Name, short.length ≤ 2 → base ++ ending named f ≠ short := by
    rintro short hshort rfl
    rw [List.length_append] at hshort
    omega
  refine ⟨hlong [] (by decide), ?_, ?_, hlong [Files.Path.dot] (by decide),
    hlong Files.Path.dots (by decide)⟩
  · simp [hslash, hslash']
  · simp [hnul, hnul']

/-- The paths of several outputs differ in their endings only. In a
directory, the last slash stands before that. -/
theorem outputPath_eq {s : Settings} (h : 1 < s.formats.length) :
    ∃ stem : Files.Path, (s.output ≠ [] → Files.Path.slash ∈ stem) ∧
      ∀ f, outputPath s f = stem ++ ending s.fileName.isSome f := by
  let base : String := s.fileName.elim "" fun name =>
    ((Files.Path.fileStem? (Text.bytes name)).map Text.shown).getD name
  have hname : ∀ f, Text.bytes (Output.fileName f s.fileName true)
      = Text.bytes base ++ ending s.fileName.isSome f := by
    intro f
    simp only [ending, base]
    cases s.fileName with
    | none => rfl
    | some name => exact Text.bytes_append _ _
  refine ⟨Files.Path.join s.output (Text.bytes base),
    fun houtput => Files.Path.slash_mem_join houtput _, fun f => ?_⟩
  rw [outputPath, decide_eq_true h, hname]
  exact Files.Path.join_append
    (Files.Path.not_isAbsolute (ending_plain s.fileName.isSome f).2.1) _ _

/-- No two formats have one path, whatever the name of the file. Several
outputs get endings of their own, and one output alone has no other to meet. -/
theorem nodup_outputPaths (s : Settings) :
    ((prepared s).formats.map (outputPath (prepared s))).Nodup := by
  by_cases h : 1 < (prepared s).formats.length
  · -- The endings differ, also behind a name that has no stem.
    obtain ⟨stem, -, hpath⟩ := outputPath_eq h
    refine List.Nodup.map_on (fun f _ g _ heq => ?_) (Keyed.nodup_eraseDups s.formats)
    rw [hpath, hpath, List.append_right_inj] at heq
    exact ending_injective heq
  · match hformats : (prepared s).formats with
    | [] => exact List.nodup_nil
    | [f] => exact List.nodup_singleton _
    | f :: g :: fs =>
        rw [hformats] at h
        simp at h

/-- Two different members make a list of several. -/
theorem one_lt_length {α : Type} {a b : α} {as : List α} (ha : a ∈ as) (hb : b ∈ as)
    (hne : a ≠ b) : 1 < as.length := by
  match as with
  | [] => cases ha
  | [c] => exact absurd ((List.mem_singleton.1 ha).trans (List.mem_singleton.1 hb).symm) hne
  | _ :: _ :: _ => simp

/-- Two outputs that are led to one place are led there by a link: they
stand in one directory, and under different names. -/
theorem endsInLink_of_outputs {s : Settings} {f g : Format} {d : Disk} {place : Files.Place}
    (houtput : s.output ≠ []) (hf : f ∈ s.formats) (hg : g ∈ s.formats) (hne : f ≠ g)
    (hplace : d.locate (outputPath s f) = .ok place)
    (hplace' : d.locate (outputPath s g) = .ok place) :
    d.EndsInLink (outputPath s f) ∨ d.EndsInLink (outputPath s g) := by
  obtain ⟨stem, hslash, hpath⟩ := outputPath_eq (one_lt_length hf hg hne)
  obtain ⟨lead, base, rfl, hbase⟩ := Files.Path.exists_eq_under (hslash houtput)
  have hunder : ∀ f,
      outputPath s f = Files.Path.under lead (base ++ ending s.fileName.isSome f) := by
    intro f
    rw [hpath, Files.Path.under, Files.Path.under, List.append_assoc, List.cons_append]
  have hnul : 0 ∉ base := by
    intro hmem
    refine (Files.Path.refusal?_eq_none_iff.1 (locate_eq_ok_iff.1 hplace).1).1 ?_
    simp [hunder, Files.Path.under, hmem]
  rw [hunder] at hplace hplace' ⊢
  rw [hunder g]
  refine endsInLink_of_locate_eq (isName_append_ending hbase hnul s.fileName.isSome f)
    (isName_append_ending hbase hnul s.fileName.isSome g) (fun heq => hne ?_) hplace hplace'
  exact ending_injective (List.append_cancel_left heq)

/-! ### A whole run -/

/-- The routes that the settings ask for, as they are found on a disk. -/
def routesOn (disk : Disk) (s : Settings) : Except Dump.Fault RouteSet :=
  RouteDoc.outcome (Extraction.extract disk s.sources Extractor.all)

/-- Extracting the routes reads the disk and does not change it. -/
theorem result_extractRoutes (s : Settings) (disk : Disk) :
    (extractRoutes s).result disk = ((routesOn disk s).mapError RunFault.extraction, disk) := rfl

/-- A run that extracts nothing writes nothing. Otherwise its result is that
of writing the outputs; a warning for a set without routes makes no
difference. -/
theorem result_run (s : Settings) (disk : Disk) :
    (run s).result disk
      = match routesOn disk s with
        | .error fault => (.error (.extraction fault), disk)
        | .ok routes => (s.formats.forM (writeOutput s routes.routes)).result disk := by
  have hempty : ∀ routes : RouteSet, (do
      if routes.isEmpty then DiskStep.note .noRoutes
      s.formats.forM (writeOutput s routes.routes)
      DiskStep.noteAll (summaryNotices s routes) : DiskStep RunFault Unit).result disk
        = (s.formats.forM (writeOutput s routes.routes)).result disk := by
    intro routes
    split <;> exact DiskStep.result_bind_noteAll _ _ _
  rw [run, DiskStep.note, DiskStep.result_noteAll_bind, DiskStep.result_bind,
    result_extractRoutes]
  cases routesOn disk s with
  | error fault => rfl
  | ok routes => exact hempty routes

/-- A run whose settings are not in order does nothing. The checks come before
everything else and look at the disk only. -/
theorem result_process (s : Settings) (disk : Disk) :
    (process s).result disk
      = match check disk s with
        | .error fault => (.error (.setup fault), disk)
        | .ok () => (run (prepared s)).result disk := by
  have hsetUp : ∀ f : Settings → DiskStep RunFault Unit, (do
      let s ← ExceptT.mk (liftM (ExceptT.adapt RunFault.setup (setUp disk s)).run)
      f s : DiskStep RunFault Unit).result disk
        = match check disk s with
          | .error fault => (.error (.setup fault), disk)
          | .ok () => (f (prepared s)).result disk := by
    intro f
    unfold setUp
    cases check disk s <;> rfl
  have hfinish : ∀ s : Settings,
      (do run s; DiskStep.note .finished : DiskStep RunFault Unit).result disk
        = (run s).result disk :=
    fun s => DiskStep.result_bind_noteAll _ _ _
  rw [process, DiskStep.note, DiskStep.result_noteAll_bind]
  refine (hsetUp _).trans ?_
  cases check disk s with
  | error fault => rfl
  | ok _ => exact hfinish (prepared s)

/-- The output directory of settings that are in order is there, so its
path is not empty. -/
theorem output_ne_nil {s : Settings} {disk : Disk} (h : check disk s = .ok ()) :
    s.output ≠ [] := by
  intro hempty
  have hmissing : needDirectory disk s.output (.outputMissing s.output)
      (.outputNotADirectory s.output) = .error (.outputMissing s.output) := by
    simp [needDirectory, pathExists, hempty, lookup_nil]
  cases hsource : s.source with
  | none =>
      simp only [check, hmissing, hsource] at h
      split at h <;> cases h
  | some path =>
      simp only [check, hmissing, hsource] at h
      split at h
      · cases h
      · obtain ⟨⟨⟩, -, h⟩ := Files.exists_of_bind_eq_ok h
        cases h

/-- A run that succeeds has extracted routes and written them in every
format, each once. -/
theorem wrote_of_process {s : Settings} {disk disk' : Disk}
    (h : (process s).result disk = (.ok (), disk')) :
    s.output ≠ [] ∧ ∃ routes, routesOn disk s = .ok routes ∧
      Wrote (outputPath (prepared s)) (fun f => Output.content f routes.routes s.host s.basePath)
        (prepared s).formats disk disk' := by
  rw [result_process] at h
  cases hcheck : check disk s with
  | error fault =>
      rw [hcheck] at h
      cases h
  | ok _ =>
      rw [hcheck] at h
      -- Preparing the settings changes neither the sources nor the output directory.
      replace h : (run (prepared s)).result disk = (.ok (), disk') := h
      rw [result_run] at h
      cases hroutes : routesOn disk (prepared s) with
      | error fault =>
          rw [hroutes] at h
          cases h
      | ok routes =>
          rw [hroutes] at h
          exact ⟨output_ne_nil hcheck, routes, hroutes, wrote_forM
            (fun f d d' hwritten => Output.writes_of_write (DiskStep.result_of_adapt hwritten)) h⟩

/-- Where a text has been written and nothing else after it, there is a
file that holds it, or a special file, which holds nothing. -/
theorem lookup_of_overwritten {d' : Disk} {path : Files.Path} {place : Files.Place}
    {content : ByteArray} {found : Option Files.Node} (hplace : d'.locate path = .ok place)
    (h : d'.leafAt? place = overwritten content found) :
    (∃ rights, d'.lookup path = .ok (.file rights content)) ∨
      ∃ rights input, d'.lookup path = .ok (.special rights input) := by
  have hlookup : ∀ {node}, d'.leafAt? place = some node → d'.lookup path = .ok node :=
    fun hleaf => lookup_eq_ok_iff.2 ⟨place, hplace, (leafAt?_eq_some_iff.1 hleaf).1⟩
  unfold overwritten at h
  split at h
  · exact Or.inr ⟨_, _, hlookup h⟩
  · exact Or.inl ⟨_, hlookup h⟩
  · exact Or.inl ⟨_, hlookup h⟩

/-- A run that fails before it writes leaves the disk alone. Whatever the
settings are, no two outputs have one path. After a run that succeeds, the
routes that the sources gave when it began have been written in every
format where the path of its output leads, and nothing but directories is
new or changed anywhere else.

The path of an output may lead to a special file, which keeps nothing, or
to the same file as that of another output, whose text is there in the end
if it was written later. The latter happens only if one of the two ends in
a link. Where none does, every output holds its own text unless it is a
special file. -/
theorem process_leaves (s : Settings) (disk : Disk) :
    let path : Format → Files.Path := fun f => Files.Path.join s.output
      (Text.bytes (Output.fileName f s.fileName (1 < s.formats.eraseDups.length)))
    (∀ fault, check disk s = .error fault →
      (process s).result disk = (.error (.setup fault), disk)) ∧
    (∀ fault, check disk s = .ok () → routesOn disk s = .error fault →
      (process s).result disk = (.error (.extraction fault), disk)) ∧
    (s.formats.eraseDups.map path).Nodup ∧
    ∀ disk', (process s).result disk = (.ok (), disk') →
      ∃ routes, routesOn disk s = .ok routes ∧
        let text : Format → ByteArray := fun f =>
          (Output.content f routes.routes s.host s.basePath).toUTF8
        -- Each text is where its path leads, unless a later one is.
        (∀ before f after, s.formats.eraseDups = before ++ f :: after →
          ∃ place, disk'.locate (path f) = .ok place ∧
            ((∀ g ∈ after, disk'.locate (path g) ≠ .ok place) →
              disk'.leafAt? place = overwritten (text f) (disk.leafAt? place))) ∧
        -- What is new or changed is where one of the paths leads.
        (∀ place, disk'.leafAt? place ≠ disk.leafAt? place →
          ∃ f ∈ s.formats, disk'.locate (path f) = .ok place) ∧
        -- Two of the paths lead to one place only through a link.
        (∀ f ∈ s.formats, ∀ g ∈ s.formats, ∀ place, f ≠ g →
          disk'.locate (path f) = .ok place → disk'.locate (path g) = .ok place →
          disk'.EndsInLink (path f) ∨ disk'.EndsInLink (path g)) ∧
        ((∀ f ∈ s.formats, ¬disk'.EndsInLink (path f)) → ∀ f ∈ s.formats,
          (∃ rights, disk'.lookup (path f) = .ok (.file rights (text f))) ∨
            ∃ rights input, disk'.lookup (path f) = .ok (.special rights input)) := by
  intro path
  refine ⟨fun fault hcheck => ?_, fun fault hcheck hroutes => ?_, nodup_outputPaths s,
    fun disk' h => ?_⟩
  · rw [result_process, hcheck]
  · have hprepared : routesOn disk (prepared s) = .error fault := hroutes
    rw [result_process, hcheck]
    show (run (prepared s)).result disk = _
    rw [result_run, hprepared]
  · obtain ⟨houtput, routes, hroutes, hwrote⟩ := wrote_of_process h
    have hlink : ∀ f ∈ s.formats, ∀ g ∈ s.formats, ∀ place, f ≠ g →
        disk'.locate (path f) = .ok place → disk'.locate (path g) = .ok place →
        disk'.EndsInLink (path f) ∨ disk'.EndsInLink (path g) :=
      fun f hf g hg place hne => endsInLink_of_outputs (s := prepared s) houtput
        (List.mem_eraseDups.2 hf) (List.mem_eraseDups.2 hg) hne
    refine ⟨routes, hroutes, hwrote.written, fun place hchanged => ?_, hlink, fun hfree f hf => ?_⟩
    · by_contra hnone
      refine hchanged (hwrote.untouched place fun f hf hlocate => hnone ?_)
      exact ⟨f, List.mem_eraseDups.1 hf, hlocate⟩
    · obtain ⟨before, after, hformats⟩ := List.append_of_mem (List.mem_eraseDups.2 hf)
      obtain ⟨place, hplace, hlast⟩ := hwrote.written before f after hformats
      refine lookup_of_overwritten hplace (hlast fun g hg hother => ?_)
      -- A later format is another one, and is led elsewhere without links.
      have hgmem : g ∈ s.formats :=
        List.mem_eraseDups.1 (hformats ▸ List.mem_append_right _ (List.mem_cons_of_mem f hg))
      have hne : f ≠ g := by
        rintro rfl
        have hnodup := Keyed.nodup_eraseDups s.formats
        rw [hformats] at hnodup
        exact (List.nodup_cons.1 (List.nodup_append.1 hnodup).2.1).1 hg
      exact (hlink f hf g hgmem place hne hplace hother).elim (hfree f hf) (hfree g hgmem)

/-- Settings with an output that has the path of the dump. -/
def ownSourceSettings : Settings where
  source := none
  dump := some (Text.bytes "routes.csv")
  output := Text.bytes "."
  fileName := some "routes.json"
  host := ""
  basePath := ""
  extension := defaultExtension
  verbose := false
  formats := [.csv, .text, .csv]

/-- A disk with the dump and nothing else. -/
def ownSourceDisk : Disk where
  root := .directory .all [(Text.bytes "routes.csv", .file .all
    "\x7b\"list\": \x7b\"path\": \"/list\", \"method\": \"GET\"\x7d\x7d".toUTF8)]
  workingDirectory := []

/-- A run that succeeded left a disk. -/
theorem exists_disk_of_isOk {yielded : Except RunFault Unit × Disk}
    (h : yielded.1.isOk = true) : ∃ disk', yielded = (.ok (), disk') := by
  obtain ⟨_ | ⟨⟩, disk'⟩ := yielded
  · cases h
  · exact ⟨disk', rfl⟩

/-- The listing is in the place of the dump from which it was made. The
list of URLs, which was written after it, is in a file of its own. -/
theorem process_leaves_ownSource :
    ∃ disk', (process ownSourceSettings).result ownSourceDisk = (.ok (), disk') ∧
      ∃ routes, routesOn ownSourceDisk ownSourceSettings = .ok routes ∧
        disk'.leafAt? [Text.bytes "routes.csv"]
          = some (.file .all (Listing.csv routes.routes).toUTF8) ∧
        disk'.leafAt? [Text.bytes "routes.txt"]
          = some (.file .all (Listing.urlList routes.routes).toUTF8) := by
  obtain ⟨disk', hresult⟩ := exists_disk_of_isOk
    (show ((process ownSourceSettings).result ownSourceDisk).1.isOk = true by decide +kernel)
  have hplaces : ∀ f ∈ [Format.csv, Format.text],
      ((process ownSourceSettings).result ownSourceDisk).2.locate
          (outputPath (prepared ownSourceSettings) f)
        = .ok [if f = .csv then Text.bytes "routes.csv" else Text.bytes "routes.txt"] := by
    decide +kernel
  rw [hresult] at hplaces
  have hcsv := hplaces .csv (by decide)
  have htext := hplaces .text (by decide)
  obtain ⟨-, -, -, hleaves⟩ := process_leaves ownSourceSettings ownSourceDisk
  obtain ⟨routes, hroutes, hwritten, -⟩ := hleaves disk' hresult
  refine ⟨disk', hresult, routes, hroutes, ?_, ?_⟩
  · obtain ⟨place, hplace, hlast⟩ := hwritten [] .csv [.text] (by decide)
    obtain rfl := Except.ok.inj (hplace.symm.trans hcsv)
    refine hlast fun g hg hother => ?_
    obtain rfl := List.mem_singleton.1 hg
    exact absurd (Except.ok.inj (hother.symm.trans htext)) (by decide +kernel)
  · obtain ⟨place, hplace, hlast⟩ := hwritten [.csv] .text [] (by decide)
    obtain rfl := Except.ok.inj (hplace.symm.trans htext)
    exact hlast fun g hg => (List.not_mem_nil hg).elim

/-- Settings with a device as their output. -/
def deviceOutputSettings : Settings where
  source := none
  dump := some (Text.bytes "routes.json")
  output := Text.bytes "."
  fileName := some "/dev/null"
  host := ""
  basePath := ""
  extension := defaultExtension
  verbose := false
  formats := [.text]

/-- Settings with two outputs. -/
def linkedOutputSettings : Settings :=
  { deviceOutputSettings with
    output := Text.bytes "out", fileName := none, formats := [.csv, .text] }

/-- A disk with a dump, with the device, and with a link under the name of
the first of the two outputs, which leads to the second. -/
def unkeptOutputsDisk : Disk where
  root := .directory .all
    [(Text.bytes "routes.json", .file .all
        "\x7b\"list\": \x7b\"path\": \"/list\", \"method\": \"GET\"\x7d\x7d".toUTF8),
     (Text.bytes "dev", .directory .all [(Text.bytes "null", .special .all .empty)]),
     (Text.bytes "out", .directory .all
        [(Text.bytes "routes.csv", .link (Text.bytes "routes.txt"))])]
  workingDirectory := []

/-- Two runs that succeed and do not leave every output with its text: a
device keeps nothing of it, and behind a link it has been overwritten by
the text of the other output. -/
theorem process_unkeptOutputs :
    ((process deviceOutputSettings).result unkeptOutputsDisk).1.isOk = true ∧
    (routesOn unkeptOutputsDisk deviceOutputSettings).map
        (fun routes => Output.content .text routes.routes "" "") = .ok "/list\n" ∧
    ((process deviceOutputSettings).result unkeptOutputsDisk).2.readText
        (outputPath deviceOutputSettings .text) = .ok "" ∧
    ((process linkedOutputSettings).result unkeptOutputsDisk).1.isOk = true ∧
    (routesOn unkeptOutputsDisk linkedOutputSettings).map
        (fun routes => Output.content .csv routes.routes "" "")
      = .ok "Route;Method;Name;Produces\n/list;GET;list;application/xml\n" ∧
    ((process linkedOutputSettings).result unkeptOutputsDisk).2.readText
        (outputPath linkedOutputSettings .csv) = .ok "/list\n" := by
  refine ⟨?_, ?_, ?_, ?_, ?_, ?_⟩ <;> decide +kernel

end Program

end RouteDoc
