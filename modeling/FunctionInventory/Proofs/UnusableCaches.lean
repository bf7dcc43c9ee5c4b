import FunctionInventory.Proofs.CommandLines
import FunctionInventory.Proofs.Inventory
import FunctionInventory.Proofs.StoredEntries

/-!
# Runs with a cache that cannot be used

Where no current cache can be read, a run with a cache directory analyzes all files and prints
what it prints without one, and failures to load and to save are noted in the log. There are two
exceptions: something in the place of the cache file that cannot be read ends the run, be it a
directory or a file that the system refuses, and so do entries that cannot be written to the file
once it is open.
-/
namespace FunctionInventory

open Logged

namespace Batch

variable {machine : Machine}
  {analysis : Text → Text → Except AnalysisError (List FunctionRecord)} {o : Options}
  {units : List SourceUnit} {results : List FileFunctions}

theorem path_resultFor (limits : Limits)
    (analysis : Text → Text → Except AnalysisError (List FunctionRecord)) (o : Options)
    (cache : Option Cache) (u : SourceUnit) :
    (resultFor limits analysis o cache u).path = u.path := by
  unfold resultFor
  split
  · rfl
  · cases analysis u.content (languageFor o u) <;> rfl

/-- Without a cache, a batch that returns has the results of its units. -/
theorem results_of_ran_none {cache : Option Cache}
    (h : ran machine analysis o none units = .ok (results, cache)) :
    cache = none ∧
      results = units.map
        (resultFor machine.limits (worked machine analysis o none units) o none) := by
  obtain ⟨jobs, hjobs⟩ := exists_jobs_none machine.limits o units
  have hends := runEnds_ran analysis hjobs
  rw [h] at hends
  cases hends with
  | returns _ _ kept =>
    rw [Option.isSome_none, Option.isSome_eq_false_iff, Option.isNone_iff_eq_none] at kept
    exact ⟨kept, rfl⟩

/-- An empty cache has nothing for any unit. -/
theorem cachedRecords_empty (limits : Limits) (directory : Path) {u : SourceUnit}
    (h : IsSupported (languageFor o u)) :
    cachedRecords limits o (some { directory }) u = .ok none := by
  rw [cachedRecords, Cache.found, contentKey_eq h]
  rfl

theorem usesPool_empty_iff (machine : Machine) (directory : Path)
    (supported : ∀ u ∈ units, IsSupported (languageFor o u)) :
    UsesPool machine o (some { directory }) units ↔ UsesPool machine o none units := by
  have hcount : units.countP (isMissed machine.limits o (some { directory })) =
      units.countP (isMissed machine.limits o none) := by
    refine List.countP_congr fun u hu => ?_
    rw [isMissed, isMissed, cachedRecords_empty machine.limits directory (supported u hu)]
    rfl
  rw [UsesPool, UsesPool, hcount]

/-- With an empty cache a batch has the results that it has without one, if they can be stored. -/
theorem exists_ran_empty (directory : Path)
    (supported : ∀ u ∈ units, IsSupported (languageFor o u))
    (h : ran machine analysis o none units = .ok (results, none))
    (shallow : DepthWithin machine.limits.data results) :
    ∃ c, ran machine analysis o (some { directory }) units = .ok (results, some c) := by
  have hempty : ∀ u ∈ units,
      cachedRecords machine.limits o (some { directory }) u = .ok none :=
    fun u hu => cachedRecords_empty machine.limits directory (supported u hu)
  have hpool := usesPool_empty_iff machine directory supported
  have hworked : worked machine analysis o (some { directory }) units =
      worked machine analysis o none units := by
    simp only [worked, hpool]
  obtain ⟨jobs, hjobs⟩ := exists_jobs_none machine.limits o units
  obtain ⟨jobs', hjobs'⟩ := exists_jobs_iff.2 fun u hu => ⟨none, hempty u hu⟩
  have hends := runEnds_ran analysis hjobs
  have hends' := runEnds_ran analysis hjobs'
  rw [h] at hends
  generalize ran machine analysis o (some { directory }) units = r at hends' ⊢
  cases hends with
  | returns completes =>
    cases hends' with
    | fails alone failing =>
      obtain ⟨u, hu, -, hfails⟩ := failing
      exact absurd ⟨u, hu, rfl, hfails⟩ (completes.resolve_left (mt hpool.2 alone))
    | unstored _ deep =>
      obtain ⟨u, hu, -, -, records, hrecords, hdeep⟩ := deep
      rw [hworked] at hrecords
      have hdepth := shallow _ (List.mem_map_of_mem hu)
      rw [resultFor_none, hrecords] at hdepth
      exact absurd hdepth (Nat.not_le_of_gt hdeep)
    | returns _ _ kept =>
      obtain ⟨c, rfl⟩ := Option.isSome_iff_exists.1 kept
      refine ⟨c, ?_⟩
      rw [Except.ok.injEq, Prod.mk.injEq, and_iff_left rfl, hworked]
      refine List.map_congr_left fun u hu => ?_
      rw [resultFor_of_missed (hempty u hu), resultFor_none]

end Batch

namespace Cache

/-- No current cache can be read from the file. -/
def Unusable (refusals : Refusals) (directory : Path) (disk : FileSystem) : Prop :=
  ∀ bytes entries, readUnder refusals.reading disk (directory / fileName) = .ok bytes →
    ¬ IsCurrent bytes entries

variable {refusals : Refusals} {directory : Path} {disk : FileSystem}

theorem loadedUnder_of_refused {message : Text}
    (hexists : disk.pathExists (directory / fileName) = true)
    (refused : refusals.reading = some message) :
    loadedUnder refusals { directory } disk = .error (.refused message) := by
  have hpath : path { directory } = directory / fileName := rfl
  unfold loadedUnder
  rw [hpath, if_pos hexists, refused]
  rfl

/-- A directory in the place of the file cannot be read. -/
theorem loadedUnder_of_isDirectory (free : refusals.reading = none)
    (h : disk.isDirectory (directory / fileName) = true) :
    loadedUnder refusals { directory } disk =
      .error (.file ⟨.isDirectory, directory / fileName⟩) := by
  have hpath : path { directory } = directory / fileName := rfl
  unfold loadedUnder FileSystem.pathExists readUnder FileSystem.read
  unfold FileSystem.isDirectory at h
  rw [hpath, free]
  split at h
  · next entries hstatus =>
    rw [hstatus]
    rfl
  · cases h

/-- What is there instead of a current file counts as nothing, if it is no directory and the
system lets it be read. -/
theorem loadedUnder_of_unusable
    (free : disk.pathExists (directory / fileName) = true → refusals.reading = none)
    (h : disk.isDirectory (directory / fileName) = false)
    (unusable : Unusable refusals directory disk) :
    loadedUnder refusals { directory } disk = .ok { directory } := by
  have hpath : path { directory } = directory / fileName := rfl
  unfold loadedUnder
  rw [hpath]
  split
  · next hexists =>
    have hfree := free hexists
    cases hread : readUnder refusals.reading disk (directory / fileName) with
    | ok bytes =>
      rw [Except.map]
      cases hcontent : contentOf bytes with
      | current entries =>
        exact absurd (contentOf_eq_current_iff.1 hcontent) (unusable bytes entries hread)
      | outdated | damaged => rfl
    | error e =>
      rw [hfree] at hread
      unfold readUnder FileSystem.read at hread
      unfold FileSystem.isDirectory at h
      unfold FileSystem.pathExists at hexists
      cases hstatus : disk.status (directory / fileName) with
      | error e =>
        rw [hstatus] at hexists
        cases hexists
      | ok sub =>
        rw [hstatus] at h hread
        cases sub with
        | file bytes => cases hread
        | directory entries => cases h
  · rfl

/-- Failures of loading and saving are noted: whatever is in the log before, there is one more
entry behind it if the file is not current, and if the system or the file tree keeps the cache
from being saved. -/
structure NotesFailures (refusals : Refusals) (directory : Path) (disk : FileSystem) : Prop where
  load : ∀ bytes log, readUnder refusals.reading disk (directory / fileName) = .ok bytes →
    ∃ e : LogEntry, (e = ⟨.info, "  Analysis cache version mismatch, ignoring cache"⟩ ∨
        e = ⟨.warning, ("  Failed to load analysis cache: " : Text) ++ unspecified⟩) ∧
      (loadUnder refusals { directory } disk).run.run log = (.ok { directory }, log ++ [e])
  save : ∀ (limits : Limits) (c : Cache) (log : List LogEntry) (saved : Saved)
    (log' : List LogEntry), (c.saveUnder limits refusals disk).run log = (saved, log') →
      saved.cache.dirty = true → saved.unwritable = none → ∃ message : Text,
        log' = log ++ [⟨.warning, ("  Failed to save analysis cache: " : Text) ++ message⟩]

theorem exists_loadUnder_note (unusable : Unusable refusals directory disk) {bytes : List UInt8}
    (hread : readUnder refusals.reading disk (directory / fileName) = .ok bytes)
    (log : List LogEntry) :
    ∃ e : LogEntry, (e = ⟨.info, "  Analysis cache version mismatch, ignoring cache"⟩ ∨
        e = ⟨.warning, ("  Failed to load analysis cache: " : Text) ++ unspecified⟩) ∧
      (loadUnder refusals { directory } disk).run.run log = (.ok { directory }, log ++ [e]) := by
  have hpath : path { directory } = directory / fileName := rfl
  have hexists : disk.pathExists (directory / fileName) = true :=
    FileSystem.pathExists_of_read (readUnder_eq_ok_iff.1 hread).2
  have hlift : (liftM (Except.ok bytes : Except ReadError (List UInt8)) :
      ExceptT ReadError Logged (List UInt8)) = pure bytes := rfl
  unfold Cache.loadUnder
  rw [hpath, hexists, hread, hlift, pure_bind]
  cases hcontent : contentOf bytes with
  | current entries =>
    exact absurd (contentOf_eq_current_iff.1 hcontent) (unusable bytes entries hread)
  | outdated => exact ⟨_, .inl rfl, rfl⟩
  | damaged => exact ⟨_, .inr rfl, rfl⟩

theorem exists_saveUnder_note {limits : Limits} {c : Cache} {log log' : List LogEntry}
    {saved : Saved} (hrun : (c.saveUnder limits refusals disk).run log = (saved, log'))
    (dirty : saved.cache.dirty = true) (writable : saved.unwritable = none) :
    ∃ message : Text,
      log' = log ++ [⟨.warning, ("  Failed to save analysis cache: " : Text) ++ message⟩] := by
  unfold saveUnder at hrun
  dsimp only at hrun
  split at hrun
  · next clean =>
    cases hrun
    rw [dirty] at clean
    cases clean
  · split at hrun
    · next message _ =>
      cases hrun
      exact ⟨message, rfl⟩
    · split at hrun
      · next message _ =>
        cases hrun
        exact ⟨message, rfl⟩
      · split at hrun
        · cases hrun
          cases writable
        · split at hrun
          · next message _ =>
            cases hrun
            exact ⟨message, rfl⟩
          · cases hrun
            cases dirty

theorem notesFailures (unusable : Unusable refusals directory disk) :
    NotesFailures refusals directory disk where
  load _ log hread := exists_loadUnder_note unusable hread log
  save _ _ _ _ _ hrun := exists_saveUnder_note hrun

end Cache

namespace CommandLine

section

variable {parse : TreeParser} {machine : Machine} {unreadable : Path → Option Text}
  {refusals : Cache.Refusals} {settings : LogSettings} {r : Request} {disk : FileSystem}
  {results : List FileFunctions}

/-- The batch of a request has results without a cache, and they can be turned into data. -/
structure Inventoried (parse : TreeParser) (machine : Machine) (unreadable : Path → Option Text)
    (disk : FileSystem) (r : Request) (results : List FileFunctions) : Prop where
  batch : Batch.ran machine (analysisOutcome parse) r.options none
    (Loading.units (loadedFiles unreadable disk r.paths)) = .ok (results, none)
  shallow : DepthWithin machine.limits.data results

/-- What is printed of the results of a request. -/
def Output.ofResults (machine : Machine) (unreadable : Path → Option Text) (disk : FileSystem)
    (r : Request) (results : List FileFunctions) : Output :=
  .of machine.limits r.compact
    (inventoryOf r.resolve machine.limits (loadedFiles unreadable disk r.paths) results)

/-- A run without a cache prints the results of its batch. -/
theorem returns_ofResults (refusals : Cache.Refusals) (settings : LogSettings)
    (hcache : r.cachePath? = none) (h : Batch.ran machine (analysisOutcome parse) r.options none
      (Loading.units (loadedFiles unreadable disk r.paths)) = .ok (results, none)) :
    Returns (runAnalyzeUnder ⟨analyzeBy parse, machine, unreadable, refusals⟩ settings r disk)
      (.ofResults machine unreadable disk r results, disk) := by
  have hsave := ends_saveCache_none machine.limits refusals disk
  exact returns_of (ends_collectUnder_of_ran settings (openedCache_of_none refusals hcache) h hsave)

/-- A run without a cache that succeeds has results that can be turned into data, and prints
them. -/
theorem exists_inventoried (hcache : r.cachePath? = none) {out : Output} {disk₀ : FileSystem}
    (h : Returns (runAnalyzeUnder ⟨analyzeBy parse, machine, unreadable, refusals⟩ settings r disk)
      (out, disk₀)) (status : out.status = 0) :
    ∃ results, Inventoried parse machine unreadable disk r results ∧
      out = .ofResults machine unreadable disk r results := by
  cases hran : Batch.ran machine (analysisOutcome parse) r.options none
    (Loading.units (loadedFiles unreadable disk r.paths)) with
  | error e =>
    have hends := ends_collectUnder_of_ran_error settings (openedCache_of_none refusals hcache) hran
    cases h.unique (returns_ofFailure hends)
    cases status
  | ok ran =>
    obtain ⟨results, cache⟩ := ran
    obtain ⟨rfl, hresults⟩ := Batch.results_of_ran_none hran
    cases h.unique (returns_ofResults refusals settings hcache hran)
    obtain ⟨known, -, hprints⟩ :=
      exists_prints _ (Batch.path_resultFor machine.limits
        (Batch.worked machine (analysisOutcome parse) r.options none
          (Loading.units (loadedFiles unreadable disk r.paths))) r.options none)
        unreadable disk r.paths
    have hprinted := hprints machine.limits r.resolve r.compact
    rw [← hresults] at hprinted
    refine ⟨results, ⟨hran, ?_⟩, rfl⟩
    rw [hresults]
    refine Loading.depthWithin_units.2 ?_
    unfold Output.ofResults at status
    generalize Output.of machine.limits r.compact _ = out at hprinted status
    cases hprinted with
    | unresolved => cases status
    | traced => cases status
    | printed _ shallow => exact shallow

/-- How a run with a cache directory ends, where a run without one prints `out`. -/
inductive CachedRun (parse : TreeParser) (limits : Limits) (refusals : Cache.Refusals)
    (disk : FileSystem) (d : Text) (out : Output) : Output → FileSystem → Prop
  | unused (empty : d = []) : CachedRun parse limits refusals disk d out out disk
  | refused {message : Text} (named : d ≠ [])
      (taken : disk.pathExists (Path.ofText d / Cache.fileName) = true)
      (h : refusals.reading = some message) :
      CachedRun parse limits refusals disk d out (.ofFailure (.reading (.refused message))) disk
  | unread (named : d ≠ []) (free : refusals.reading = none)
      (h : disk.isDirectory (Path.ofText d / Cache.fileName) = true) :
      CachedRun parse limits refusals disk d out
        (.ofFailure (.reading (.file ⟨.isDirectory, Path.ofText d / Cache.fileName⟩))) disk
  | unwritable {c : Cache} {saved : Cache.Saved} {e : MessagePack.Unwritable} (named : d ≠ [])
      (free : disk.pathExists (Path.ofText d / Cache.fileName) = true → refusals.reading = none)
      (h : disk.isDirectory (Path.ofText d / Cache.fileName) = false)
      (directory : c.directory = .ofText d)
      (entries : HoldsAnalyses (analysisOf parse) Set.univ c.entries)
      (saves : Cache.SavesAs limits refusals c disk saved) (opens : Cache.Opens refusals c disk)
      (hw : c.encode limits = .error e) :
      CachedRun parse limits refusals disk d out (.ofFailure (.unwritable e)) saved.disk
  | printed {c : Cache} {saved : Cache.Saved} (named : d ≠ [])
      (free : disk.pathExists (Path.ofText d / Cache.fileName) = true → refusals.reading = none)
      (h : disk.isDirectory (Path.ofText d / Cache.fileName) = false)
      (directory : c.directory = .ofText d)
      (entries : HoldsAnalyses (analysisOf parse) Set.univ c.entries)
      (saves : Cache.SavesAs limits refusals c disk saved)
      (hw : ∀ e, c.encode limits = .error e → c.dirty = false ∨ ¬ Cache.Opens refusals c disk) :
      CachedRun parse limits refusals disk d out out saved.disk

theorem cachePath?_withCache {d : Text} (h : d ≠ []) :
    (r.withCache (some d)).cachePath? = some (.ofText d) := by
  simp [Request.cachePath?, Request.withCache, h]

/-- What cannot be read in the place of the cache file ends a run before any file is analyzed. -/
theorem returns_of_reading {d : Text} (named : d ≠ []) {e : Cache.ReadError}
    (h : Cache.loadedUnder refusals { directory := .ofText d } disk = .error e) :
    Returns (runAnalyzeUnder ⟨analyzeBy parse, machine, unreadable, refusals⟩ settings
      (r.withCache (some d)) disk) (.ofFailure (.reading e), disk) := by
  have hopened := openedCache_of_unread (cachePath?_withCache (r := r) named) h
  exact returns_ofFailure (ends_collectUnder_of_unopened settings hopened)

/-- The save decides how a run ends that has the results which are printed without a cache. -/
theorem exists_cachedRun_of_saves {d : Text} (named : d ≠ [])
    (free : disk.pathExists (Path.ofText d / Cache.fileName) = true → refusals.reading = none)
    (hplace : disk.isDirectory (Path.ofText d / Cache.fileName) = false) {c : Cache}
    (directory : c.directory = .ofText d)
    (entries : HoldsAnalyses (analysisOf parse) Set.univ c.entries) {saved : Cache.Saved}
    (saves : Cache.SavesAs machine.limits refusals c disk saved)
    (hcollect : Ends (collectUnder ⟨analyzeBy parse, machine, unreadable, refusals⟩ settings
        (r.withCache (some d))) disk
      ((savedAs saved).map fun _ => (loadedFiles unreadable disk r.paths, results)) saved.disk) :
    ∃ out, Returns (runAnalyzeUnder ⟨analyzeBy parse, machine, unreadable, refusals⟩ settings
        (r.withCache (some d)) disk) (out, saved.disk) ∧
      CachedRun parse machine.limits refusals disk d
        (.ofResults machine unreadable disk r results) out saved.disk := by
  have hfails := saves.effects.fails_iff
  unfold savedAs at hcollect
  cases hunwritable : saved.unwritable with
  | some e =>
    rw [hunwritable] at hcollect
    obtain ⟨-, opens, hw⟩ := (hfails e).1 hunwritable
    exact ⟨_, returns_ofFailure hcollect,
      .unwritable named free hplace directory entries saves opens hw⟩
  | none =>
    rw [hunwritable] at hcollect
    refine ⟨_, returns_of hcollect, ?_⟩
    refine .printed named free hplace directory entries saves fun e hw => ?_
    by_contra hopened
    rw [not_or, not_not, Bool.not_eq_false] at hopened
    have hsome := (hfails e).2 ⟨hopened.1, hopened.2, hw⟩
    rw [hunwritable] at hsome
    cases hsome

/-- A run with a cache directory in which no current cache can be read. -/
theorem exists_cachedRun (settings : LogSettings) (supported : r.LanguageSupported) {d : Text}
    (unusable : Cache.Unusable refusals (.ofText d) disk)
    (h : Inventoried parse machine unreadable disk r results) :
    ∃ out disk', Returns (runAnalyzeUnder ⟨analyzeBy parse, machine, unreadable, refusals⟩ settings
        (r.withCache (some d)) disk) (out, disk') ∧
      CachedRun parse machine.limits refusals disk d
        (.ofResults machine unreadable disk r results) out disk' := by
  by_cases named : d = []
  · subst named
    exact ⟨_, disk, returns_ofResults (r := r.withCache (some [])) refusals settings rfl h.batch,
      .unused rfl⟩
  · by_cases free : disk.pathExists (Path.ofText d / Cache.fileName) = true →
      refusals.reading = none
    · cases hplace : disk.isDirectory (Path.ofText d / Cache.fileName) with
      | true =>
        have hfree := free (FileSystem.pathExists_of_isDirectory hplace)
        exact ⟨_, disk, returns_of_reading named (Cache.loadedUnder_of_isDirectory hfree hplace),
          .unread named hfree hplace⟩
      | false =>
        have hopened := openedCache_of_loaded (cachePath?_withCache (r := r) named)
          (Cache.loadedUnder_of_unusable free hplace unusable)
        obtain ⟨c, hc⟩ := Batch.exists_ran_empty (.ofText d)
          (fun u _ => isSupported_languageFor supported u) h.batch h.shallow
        have hnothing : HoldsAnalyses (analysisOf parse) Set.univ
            ({ directory := .ofText d } : Cache).entries := holdsAnalyses_nil
        obtain ⟨hdirectory, hentries⟩ :=
          Batch.holdsAnalyses_ran machine (fun _ _ => Set.mem_univ _) hnothing
        rw [hc] at hdirectory hentries
        obtain ⟨saved, hsaved, hsaves⟩ :=
          Cache.exists_returns_saveUnder machine.limits refusals c disk
        have hcollect : Ends (collectUnder ⟨analyzeBy parse, machine, unreadable, refusals⟩
            settings (r.withCache (some d))) disk ((savedAs saved).map fun _ =>
              (loadedFiles unreadable disk r.paths, results)) saved.disk :=
          ends_collectUnder_of_ran settings hopened hc (ends_saveCache hsaved)
        obtain ⟨out, hreturns, hrun⟩ :=
          exists_cachedRun_of_saves named free hplace hdirectory hentries hsaves hcollect
        exact ⟨out, saved.disk, hreturns, hrun⟩
    · obtain ⟨taken, hrefused⟩ := Classical.not_imp.1 free
      obtain ⟨message, hmessage⟩ := Option.ne_none_iff_exists'.1 hrefused
      exact ⟨_, disk, returns_of_reading named (Cache.loadedUnder_of_refused taken hmessage),
        .refused named taken hmessage⟩

end

namespace Unusable

open CacheState.Sample (content parse)

/-- A source with one function, and something in the place of the cache file. -/
def diskWith (t : FileTree) : FileSystem :=
  { tree := .directory [
      ("a.js", .file (Text.encode content)), ("cache", .directory [(Cache.fileName, t)])] }

def request : Request := { paths := ["a.js"] }

variable (t : FileTree)

theorem request_eq : CommandLine.request (diskWith t) {} { arguments := ["a.js"] } = .ok request :=
  rfl

theorem loadedFiles_eq :
    loadedFiles (fun _ => none) (diskWith t) request.paths = [.unit ⟨"a.js", content⟩] := by
  show [LoadedFile.unit ⟨"a.js", Loading.contentOf (Text.encode content)⟩] = _
  rw [Sample.contentOf_encode]

theorem split_path : split analyzeOptions true ["a.js"] {} = .ok { arguments := ["a.js"] } := rfl

/-- Without a cache, the function is printed. -/
theorem exists_printed : ∃ text,
    Returns (runUnder ⟨analyzeBy parse, {}, fun _ => none, {}⟩ {} {} ["analyze", "a.js"]
      (diskWith t)) ({ out := text }, diskWith t) := by
  obtain ⟨records, hrecords, hdepth⟩ := CacheState.Sample.exists_records
  have hlanguage : Batch.languageFor request.options ⟨"a.js", content⟩ =
      Text.ofString "javascript" := by decide +kernel
  have hran : Batch.ran {} (analysisOutcome parse) request.options none
      (Loading.units (loadedFiles (fun _ => none) (diskWith t) request.paths)) =
        .ok ([Batch.resultOf ⟨"a.js", content⟩ records], none) := by
    rw [loadedFiles_eq]
    refine (Batch.ran_none_eq {} ?_ fun _ _ => rfl).trans ?_
    · intro u hu
      rw [List.mem_singleton.1 hu, hlanguage]
      exact ⟨records, hrecords⟩
    · change Except.ok ([Batch.resultOf _ (analysisOf parse content _)], none) = _
      rw [hlanguage, analysisOf_of_eq_ok hrecords]
  have hreturns := returns_ofResults {} {} rfl hran
  rw [Output.ofResults, loadedFiles_eq] at hreturns
  rw [runUnder_analyze _ {} {} split_path rfl, request_eq]
  rcases render_cases {} false [Batch.resultOf ⟨"a.js", content⟩ records] with
    ⟨-, text, htext⟩ | ⟨hdeep, -⟩
  · refine ⟨text, ?_⟩
    change Returns _ (Output.ofFiles {} false [Batch.resultOf ⟨"a.js", content⟩ records], _)
      at hreturns
    rw [Output.ofFiles, htext] at hreturns
    exact hreturns
  · refine absurd (fun f hf => ?_) hdeep
    rw [List.mem_singleton.1 hf]
    exact hdepth.trans (by decide)

theorem accepted (bytes : List UInt8) : (diskWith t).statusAsWritten "cache" ≠ .ok (.file bytes) := by
  intro h
  cases h

theorem unusable_of_directory : Cache.Unusable {} (.ofText "cache") (diskWith (.directory [])) := by
  intro bytes entries hread
  cases hread

theorem unusable_of_damaged : Cache.Unusable {} (.ofText "cache") (diskWith (.file [0xc1])) := by
  intro bytes entries hread hcurrent
  have hdamaged : Cache.contentOf [0xc1] = .damaged := rfl
  cases hread
  rw [← Cache.contentOf_eq_current_iff, hdamaged] at hcurrent
  cases hcurrent

end Unusable

end CommandLine

end FunctionInventory
