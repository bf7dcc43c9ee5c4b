import FunctionInventory.CommandLine.Program
import FunctionInventory.Proofs.CacheTransparency
import FunctionInventory.Proofs.FilteredCalls

/-!
# The inventory of a request

A run loads files, analyzes those that could be read, resolves the results and puts the others
back among them. Each of these steps goes through another list, and still every file has its
entry in its place: the reason why it could not be read, or its functions. The cache gets the
functions as they were analyzed, whatever the run prints. Functions that are nested too deep for
one of the steps end the run there.
-/
namespace FunctionInventory

open Logged

namespace Loading

/-- The files that an argument stands for. -/
def expanded (disk : FileSystem) (exclude : List Text) (p : Path) : List Path :=
  if disk.isDirectory p then sourceFiles disk exclude p else [p]

/-- The files that paths stand for, in the order in which they are loaded. -/
def filesOf (disk : FileSystem) (paths : List Text) : List Path :=
  paths.flatMap fun p => expanded disk defaultExclusions (.ofText p)

/-- What a file is loaded as. -/
def loadedAs (unreadable : Path → Option Text) (disk : FileSystem) (p : Path) : LoadedFile :=
  match readUnder unreadable disk p with
  | .ok bytes => .unit ⟨p.toText, contentOf bytes⟩
  | .error message => .failed { path := p.toText, errors := [message] }

theorem returns_expand (disk : FileSystem) (exclude : List Text) (p : Path) :
    Returns (expand disk exclude p) (expanded disk exclude p) := by
  unfold expand expanded
  by_cases h : disk.isDirectory p
  · rw [if_pos h, if_pos h]
    exact (returns_unit _).bind (returns_pure _)
  · rw [if_neg h, if_neg h]
    exact returns_pure _

theorem returns_loadFileUnder (unreadable : Path → Option Text) (disk : FileSystem) (p : Path) :
    Returns (loadFileUnder unreadable disk p) (loadedAs unreadable disk p) := by
  unfold loadFileUnder loadedAs
  cases readUnder unreadable disk p with
  | ok bytes => exact returns_pure _
  | error message => exact (returns_unit _).bind (returns_pure _)

theorem returns_loadUnitsUnder_expanded (unreadable : Path → Option Text) (disk : FileSystem)
    (paths exclude : List Text) :
    Returns (loadUnitsUnder unreadable disk paths exclude)
      ((paths.flatMap fun p => expanded disk exclude (.ofText p)).map
        (loadedAs unreadable disk)) := by
  have hfiles : Returns (paths.mapM fun p => expand disk exclude (.ofText p))
      (paths.map fun p => expanded disk exclude (.ofText p)) :=
    Returns.mapM fun p _ => returns_expand disk exclude (.ofText p)
  refine hfiles.bind ?_
  rw [List.flatMap_def]
  exact Returns.mapM fun p _ => returns_loadFileUnder unreadable disk p

/-- Every file is loaded once for each time that a path stands for it, in order. -/
theorem returns_loadUnitsUnder (unreadable : Path → Option Text) (disk : FileSystem)
    (paths : List Text) :
    Returns (loadUnitsUnder unreadable disk paths)
      ((filesOf disk paths).map (loadedAs unreadable disk)) :=
  returns_loadUnitsUnder_expanded unreadable disk paths defaultExclusions

/-- The entry of a loaded file, where `entry` gives that of a unit. -/
def entryOf (entry : SourceUnit → FileFunctions) : LoadedFile → FileFunctions
  | .unit u => entry u
  | .failed f => f

/-- Entries of the units with their paths go back to their places among the other files. -/
theorem merge_units (entry : SourceUnit → FileFunctions) (h : ∀ u, (entry u).path = u.path)
    (loaded : List LoadedFile) :
    merge loaded ((units loaded).map entry) = .ok (loaded.map (entryOf entry)) := by
  induction loaded with
  | nil => rfl
  | cons f loaded ih =>
    cases f with
    | unit u =>
      change (if (entry u).path = u.path then _ else _) = _
      rw [if_pos (h u)]
      change (merge loaded ((units loaded).map entry)).map _ = _
      rw [ih]
      rfl
    | failed f =>
      have hunits : units (.failed f :: loaded) = units loaded := rfl
      rw [hunits, merge, ih]
      rfl

theorem mem_units {loaded : List LoadedFile} {u : SourceUnit} :
    u ∈ units loaded ↔ .unit u ∈ loaded := by
  rw [units, List.mem_filterMap]
  constructor
  · rintro ⟨f, hf, hu⟩
    cases f with
    | unit v =>
      cases hu
      exact hf
    | failed f => cases hu
  · intro h
    exact ⟨.unit u, h, rfl⟩

/-- The units are those of the files that can be read, with their contents. -/
theorem mem_units_loadedAs {unreadable : Path → Option Text} {disk : FileSystem}
    {files : List Path} {u : SourceUnit} :
    u ∈ units (files.map (loadedAs unreadable disk)) ↔ ∃ p ∈ files, ∃ bytes,
      readUnder unreadable disk p = .ok bytes ∧ u = ⟨p.toText, contentOf bytes⟩ := by
  rw [mem_units, List.mem_map]
  refine exists_congr fun p => and_congr_right fun _ => ?_
  unfold loadedAs
  cases readUnder unreadable disk p with
  | ok bytes => simp [eq_comm]
  | error message => simp

end Loading

namespace Loading

variable {unreadable : Path → Option Text} {disk : FileSystem} {entry : SourceUnit → FileFunctions}

theorem entryOf_filterCalls (known : Text → Bool) (p : Path) :
    entryOf (fun u => (entry u).filterCalls known) (loadedAs unreadable disk p) =
      (entryOf entry (loadedAs unreadable disk p)).filterCalls known := by
  unfold loadedAs
  cases readUnder unreadable disk p with
  | ok bytes => rfl
  | error message =>
    have hnone : FunctionRecord.filterAll known [] = [] := by rw [FunctionRecord.filterAll]
    rw [entryOf, entryOf, FileFunctions.filterCalls, hnone]

/-- Files that cannot be read have no functions, so that what some functions have those of units
have. -/
theorem exists_units_iff (entry : SourceUnit → FileFunctions) (files : List Path)
    {P : List FunctionRecord → Prop} (hnone : ¬ P []) :
    (∃ f ∈ (units (files.map (loadedAs unreadable disk))).map entry, P f.functions) ↔
      ∃ f ∈ files.map fun p => entryOf entry (loadedAs unreadable disk p), P f.functions := by
  simp only [List.mem_map, exists_exists_and_eq_and]
  constructor
  · rintro ⟨u, hu, hP⟩
    obtain ⟨p, hp, bytes, hread, rfl⟩ := mem_units_loadedAs.1 hu
    refine ⟨p, hp, ?_⟩
    rw [loadedAs, hread]
    exact hP
  · rintro ⟨p, hp, hP⟩
    cases hread : readUnder unreadable disk p with
    | ok bytes =>
      rw [loadedAs, hread] at hP
      exact ⟨_, mem_units_loadedAs.2 ⟨p, hp, bytes, hread, rfl⟩, hP⟩
    | error message =>
      rw [loadedAs, hread] at hP
      exact absurd hP hnone

theorem namedIn_units {files : List Path} {t : Text} :
    NamedIn ((units (files.map (loadedAs unreadable disk))).map entry) t ↔
      NamedIn (files.map fun p => entryOf entry (loadedAs unreadable disk p)) t :=
  exists_units_iff entry files (P := fun rs => ∃ r ∈ FunctionRecord.walkAll rs, r.name = t)
    (by simp)

theorem depthWithin_units {files : List Path} {limit : Nat} :
    DepthWithin limit ((units (files.map (loadedAs unreadable disk))).map entry) ↔
      DepthWithin limit (files.map fun p => entryOf entry (loadedAs unreadable disk p)) := by
  unfold DepthWithin
  rw [← not_iff_not]
  push Not
  exact exists_units_iff entry files (P := fun rs => limit < FunctionRecord.depthAll rs) (by simp)

end Loading

theorem isSupported_of_eq_ok {parse : TreeParser} {content language : Text}
    {records : List FunctionRecord} (h : analysisOutcome parse content language = .ok records) :
    IsSupported language := by
  cases hlanguage : Language.ofName? language with
  | some l => exact Option.isSome_iff_exists.2 ⟨l, hlanguage⟩
  | none =>
    rw [analysisOutcome_of_unsupported parse hlanguage] at h
    cases h

namespace Batch

variable {parse : TreeParser} {machine : Machine} {o : Options} {units : List SourceUnit}

/-- Without a cache, a batch has the results of all analyses that succeed and are not lost. -/
theorem ran_none_eq (machine : Machine)
    (analyzed : ∀ u ∈ units, ∃ records,
      analysisOutcome parse u.content (languageFor o u) = .ok records)
    (kept : ∀ u ∈ units, machine.lost (analysisOf parse u.content (languageFor o u)) = none) :
    ran machine (analysisOutcome parse) o none units =
      .ok (units.map fun u => resultOf u (analysisOf parse u.content (languageFor o u)), none) := by
  rw [ran_none machine analyzed, Except.ok.injEq, Prod.mk.injEq, and_iff_left rfl]
  exact List.map_congr_left fun u hu => findsAnalysis_none.resultFor_eq (analyzed u hu) (kept u hu)

/-- With a cache that has nothing but the analyses of its units, a batch has the same results,
unless an analysis is nested too deep to be stored. -/
theorem ran_some_cases (machine : Machine) {c : Cache}
    (analyzed : ∀ u ∈ units, ∃ records,
      analysisOutcome parse u.content (languageFor o u) = .ok records)
    (kept : ∀ u ∈ units, machine.lost (analysisOf parse u.content (languageFor o u)) = none)
    (cached : ∀ u ∈ units, FindsAnalysis parse machine.limits o (some c) u) :
    ((∃ u ∈ units, machine.limits.data <
          FunctionRecord.depthAll (analysisOf parse u.content (languageFor o u))) ∧
        ∃ left, ran machine (analysisOutcome parse) o (some c) units =
          .error (.unstored (.nesting .data) left)) ∨
      (∀ u ∈ units, FunctionRecord.depthAll (analysisOf parse u.content (languageFor o u)) ≤
          machine.limits.data) ∧
        ∃ c', ran machine (analysisOutcome parse) o (some c) units =
          .ok (units.map fun u => resultOf u (analysisOf parse u.content (languageFor o u)),
            some c') := by
  have hdeep (u : SourceUnit) (hu : u ∈ units) :
      UnitTooDeep machine.limits (worked machine (analysisOutcome parse) o (some c) units) o
        (some c) u ↔ _ := (cached u hu).unitTooDeep_iff (analyzed u hu) (kept u hu)
  rcases ran_cases machine (some c) (fun u hu => (cached u hu).looked) analyzed with
    ⟨⟨u, hu, hfirst⟩, hran⟩ | ⟨hshallow, cache', hkept, hran⟩
  · exact .inl ⟨⟨u, hu, ((hdeep u hu).1 hfirst).2⟩, hran⟩
  · obtain ⟨c', rfl⟩ := Option.isSome_iff_exists.1 hkept
    refine .inr ⟨fun u hu => Nat.le_of_not_lt fun hlt => ?_, c', ?_⟩
    · exact hshallow ⟨u, hu, (hdeep u hu).2 ⟨rfl, hlt⟩⟩
    · rw [hran, Except.ok.injEq, Prod.mk.injEq, and_iff_left rfl]
      exact List.map_congr_left fun u hu =>
        (cached u hu).resultFor_eq (analyzed u hu) (kept u hu)

end Batch

namespace Progress

theorem gives_logOperation {ε α : Type} (operation : Text) (details : List (Text × Text))
    (cause : ε → Text) {body : ExceptT ε Logged α} {r : Except ε α} (h : Gives body r) :
    Gives (logOperation operation details cause body) r := by
  refine (returns_unit _).bind (Returns.bind h ?_)
  cases r with
  | ok a => exact (returns_unit _).bind (returns_pure _)
  | error e => exact (returns_unit _).bind (returns_pure _)

end Progress

namespace CommandLine

section

variable {α β : Type} {disk disk' disk'' : FileSystem}

/-- A run ends in an outcome and leaves a file tree, whatever is in the log before. -/
def Ends (x : Run α) (disk : FileSystem) (r : Except Failure α) (disk' : FileSystem) : Prop :=
  Returns (x.run.run disk) (r, disk')

theorem ends_pure (a : α) (disk : FileSystem) : Ends (pure a) disk (.ok a) disk := returns_pure _

theorem ends_throw (e : Failure) (disk : FileSystem) :
    Ends (throw e : Run α) disk (.error e) disk := returns_pure _

theorem ends_get (disk : FileSystem) : Ends get disk (.ok disk) disk := returns_pure _

theorem ends_set (disk disk' : FileSystem) : Ends (set disk') disk (.ok ()) disk' := returns_pure _

theorem ends_lift {x : Logged α} {a : α} (h : Returns x a) (disk : FileSystem) :
    Ends (liftM x) disk (.ok a) disk :=
  fun log => congrArg (fun a => (Except.ok a, disk)) (h log)

theorem Ends.bind_ok {x : Run α} {f : α → Run β} {a : α} {r : Except Failure β}
    (hx : Ends x disk (.ok a) disk') (hf : Ends (f a) disk' r disk'') :
    Ends (x >>= f) disk r disk'' :=
  Returns.bind (f := fun ended : Except Failure α × FileSystem =>
    (ExceptT.bindCont f ended.1).run ended.2) hx hf

theorem Ends.bind_error {x : Run α} {f : α → Run β} {e : Failure}
    (hx : Ends x disk (.error e) disk') : Ends (x >>= f) disk (.error e) disk' :=
  Returns.bind (f := fun ended : Except Failure α × FileSystem =>
    (ExceptT.bindCont f ended.1).run ended.2) hx (returns_pure _)

/-- A run that goes on with a value of its own ends as it would end by itself. -/
theorem Ends.map_ok {x : Run α} {f : α → Run β} {r : Except Failure α} {g : α → β}
    (hx : Ends x disk r disk') (hf : ∀ a, Ends (f a) disk' (.ok (g a)) disk') :
    Ends (x >>= f) disk (r.map g) disk' := by
  cases r with
  | ok a => exact hx.bind_ok (hf a)
  | error e => exact hx.bind_error

/-- Where the cache of a request is, if it asks for one. -/
def Request.cachePath? (r : Request) : Option Path :=
  (r.cacheDirectory.filter fun d => !d.isEmpty).map .ofText

/-- The cache that a request starts with, if it asks for one. -/
def openedCache (refusals : Cache.Refusals) (r : Request) (disk : FileSystem) :
    Except Failure (Option Cache) :=
  match r.cachePath? with
  | none => .ok none
  | some directory => ((Cache.loadedUnder refusals { directory } disk).map some).mapError .reading

theorem openedCache_of_none (refusals : Cache.Refusals) {r : Request} (h : r.cachePath? = none) :
    openedCache refusals r disk = .ok none := by
  rw [openedCache, h]

theorem openedCache_of_loaded {refusals : Cache.Refusals} {r : Request} {directory : Path}
    {c : Cache} (h : r.cachePath? = some directory)
    (hload : Cache.loadedUnder refusals { directory } disk = .ok c) :
    openedCache refusals r disk = .ok (some c) := by
  simp only [openedCache, h, hload]
  rfl

theorem openedCache_of_unread {refusals : Cache.Refusals} {r : Request} {directory : Path}
    {e : Cache.ReadError} (h : r.cachePath? = some directory)
    (hload : Cache.loadedUnder refusals { directory } disk = .error e) :
    openedCache refusals r disk = .error (.reading e) := by
  simp only [openedCache, h, hload]
  rfl

theorem ends_openCache (refusals : Cache.Refusals) (r : Request) (disk : FileSystem) :
    Ends (openCache refusals r) disk (openedCache refusals r disk) disk := by
  unfold openCache openedCache Request.cachePath?
  cases r.cacheDirectory with
  | none => exact ends_pure none disk
  | some d =>
    by_cases hempty : d.isEmpty
    · simp only [Option.filter_some, hempty, Bool.not_true, Bool.false_eq_true, if_false,
        Option.map_none, if_true]
      exact ends_pure none disk
    · simp only [Option.filter_some, hempty, Bool.not_false, if_true, Option.map_some]
      have hload := Cache.gives_loadUnder refusals { directory := .ofText d } disk
      refine (ends_get disk).bind_ok ((ends_lift hload disk).bind_ok ?_)
      cases Cache.loadedUnder refusals { directory := .ofText d } disk with
      | ok c => exact ends_pure (some c) disk
      | error e => exact ends_throw (.reading e) disk

/-- How saving ends: it fails if and only if the entries cannot be written. -/
def savedAs (saved : Cache.Saved) : Except Failure Unit :=
  match saved.unwritable with
  | some e => .error (.unwritable e)
  | none => .ok ()

theorem ends_saveCache_none (limits : Limits) (refusals : Cache.Refusals) (disk : FileSystem) :
    Ends (saveCache limits refusals none) disk (.ok ()) disk := ends_pure () disk

theorem ends_saveCache {limits : Limits} {refusals : Cache.Refusals} {c : Cache}
    {saved : Cache.Saved} (h : Returns (c.saveUnder limits refusals disk) saved) :
    Ends (saveCache limits refusals (some c)) disk (savedAs saved) saved.disk := by
  unfold savedAs
  refine (ends_get disk).bind_ok ((ends_lift h disk).bind_ok ((ends_set disk saved.disk).bind_ok ?_))
  cases saved.unwritable with
  | none => exact ends_pure () saved.disk
  | some e => exact ends_throw (.unwritable e) saved.disk

/-- The files of a request as they are loaded. -/
def loadedFiles (unreadable : Path → Option Text) (disk : FileSystem) (paths : List Text) :
    List LoadedFile :=
  (Loading.filesOf disk paths).map (Loading.loadedAs unreadable disk)

section

variable {parse : TreeParser} {machine : Machine} {unreadable : Path → Option Text}
  {refusals : Cache.Refusals} (settings : LogSettings) {r : Request} {cache : Option Cache}

/-- A run whose cache cannot be opened ends before its batch. -/
theorem ends_collectUnder_of_unopened {e : Failure}
    (hopened : openedCache refusals r disk = .error e) :
    Ends (collectUnder ⟨analyzeBy parse, machine, unreadable, refusals⟩ settings r) disk (.error e)
      disk := by
  have hloaded := Loading.returns_loadUnitsUnder unreadable disk r.paths
  have hopen := ends_openCache refusals r disk
  rw [hopened] at hopen
  exact (ends_get disk).bind_ok ((ends_lift hloaded disk).bind_ok hopen.bind_error)

/-- A batch that fails ends a run. -/
theorem ends_collectUnder_of_ran_error {e : BatchError}
    (hopened : openedCache refusals r disk = .ok cache)
    (hran : Batch.ran machine (analysisOutcome parse) r.options cache
      (Loading.units (loadedFiles unreadable disk r.paths)) = .error e) :
    Ends (collectUnder ⟨analyzeBy parse, machine, unreadable, refusals⟩ settings r) disk
      (.error (.batch e)) disk := by
  have hloaded := Loading.returns_loadUnitsUnder unreadable disk r.paths
  have hopen := ends_openCache refusals r disk
  rw [hopened] at hopen
  have hbatch := Batch.gives_run_ran (gives_analyzeBy parse) machine settings r.options cache
    (Loading.units (loadedFiles unreadable disk r.paths))
  rw [hran] at hbatch
  refine (ends_get disk).bind_ok ((ends_lift hloaded disk).bind_ok (hopen.bind_ok ?_))
  refine (ends_lift (Progress.gives_logOperation _ _ _ hbatch) disk).bind_ok ?_
  exact ends_throw (.batch e) disk

/-- A batch that has results is followed by saving the cache. -/
theorem ends_collectUnder_of_ran {cache' : Option Cache} {results : List FileFunctions}
    {ended : Except Failure Unit} (hopened : openedCache refusals r disk = .ok cache)
    (hran : Batch.ran machine (analysisOutcome parse) r.options cache
      (Loading.units (loadedFiles unreadable disk r.paths)) = .ok (results, cache'))
    (hsave : Ends (saveCache machine.limits refusals cache') disk ended disk') :
    Ends (collectUnder ⟨analyzeBy parse, machine, unreadable, refusals⟩ settings r) disk
      (ended.map fun _ => (loadedFiles unreadable disk r.paths, results)) disk' := by
  have hloaded := Loading.returns_loadUnitsUnder unreadable disk r.paths
  have hopen := ends_openCache refusals r disk
  rw [hopened] at hopen
  have hbatch := Batch.gives_run_ran (gives_analyzeBy parse) machine settings r.options cache
    (Loading.units (loadedFiles unreadable disk r.paths))
  rw [hran] at hbatch
  refine (ends_get disk).bind_ok ((ends_lift hloaded disk).bind_ok (hopen.bind_ok ?_))
  refine (ends_lift (Progress.gives_logOperation _ _ _ hbatch) disk).bind_ok ?_
  exact hsave.map_ok fun _ => ends_pure _ disk'

end

/-- The inventory of files and the results of their analyses. -/
def inventoryOf (resolve : Bool) (limits : Limits) (loaded : List LoadedFile)
    (results : List FileFunctions) : Except Failure (List FileFunctions) := do
  let resolved ← (resolvedIf resolve limits results).mapError Failure.nesting
  (Loading.merge loaded resolved).mapError Failure.merge

/-- What is printed of the end of a run. -/
def Output.of (limits : Limits) (compact : Bool) :
    Except Failure (List FileFunctions) → Output
  | .ok files => .ofFiles limits compact files
  | .error e => .ofFailure e

section

variable {conditions : Conditions} {settings : LogSettings} {r : Request}

/-- A run that collects nothing says why. -/
theorem returns_ofFailure {e : Failure}
    (hcollect : Ends (collectUnder conditions settings r) disk (.error e) disk') :
    Returns (runAnalyzeUnder conditions settings r disk) (.ofFailure e, disk') := by
  have hinventory : Ends (inventoryUnder conditions settings r) disk (.error e) disk' :=
    hcollect.bind_error
  exact Returns.bind hinventory (returns_pure _)

/-- A run that collects files and results prints their inventory, if there is one. -/
theorem returns_of {loaded : List LoadedFile} {results : List FileFunctions}
    (hcollect : Ends (collectUnder conditions settings r) disk (.ok (loaded, results)) disk') :
    Returns (runAnalyzeUnder conditions settings r disk)
      (.of conditions.machine.limits r.compact
        (inventoryOf r.resolve conditions.machine.limits loaded results), disk') := by
  have hinventory : Ends (inventoryUnder conditions settings r) disk
      (inventoryOf r.resolve conditions.machine.limits loaded results) disk' := by
    refine hcollect.bind_ok ?_
    dsimp only
    unfold inventoryOf
    cases resolvedIf r.resolve conditions.machine.limits results with
    | error e => exact ends_throw (.nesting e) disk'
    | ok resolved =>
      change Ends _ _ ((Loading.merge loaded resolved).mapError .merge) _
      dsimp only
      cases Loading.merge loaded resolved with
      | error e => exact ends_throw (.merge e) disk'
      | ok files => exact ends_pure files disk'
  refine Returns.bind hinventory ?_
  generalize inventoryOf _ _ loaded results = outcome
  cases outcome with
  | error e => exact returns_pure _
  | ok files => exact returns_pure _

end

/-- How a run ends its use of the cache at a path, if there is one, and the file tree that it
leaves: the file cannot be read, or the analysis of a source is nested too deep to be stored, or
the cache is saved with nothing but analyses. -/
inductive CacheUse (parse : TreeParser) (limits : Limits) (refusals : Cache.Refusals)
    (sources : Set (Text × Text)) (disk : FileSystem) :
    Option Path → Except Failure Unit → FileSystem → Prop
  | absent : CacheUse parse limits refusals sources disk none (.ok ()) disk
  | unread {directory : Path} {e : Cache.ReadError}
      (h : Cache.loadedUnder refusals { directory } disk = .error e) :
      CacheUse parse limits refusals sources disk (some directory) (.error (.reading e)) disk
  | unstored {directory : Path} {left : Cache}
      (deep : ∃ source ∈ sources,
        limits.data < FunctionRecord.depthAll (analysisOf parse source.1 source.2)) :
      CacheUse parse limits refusals sources disk (some directory)
        (.error (.batch (.unstored (.nesting .data) left))) disk
  | saved {c : Cache} {saved : Cache.Saved}
      (shallow : ∀ source ∈ sources,
        FunctionRecord.depthAll (analysisOf parse source.1 source.2) ≤ limits.data)
      (entries : HoldsAnalyses (analysisOf parse) Set.univ c.entries)
      (saves : Cache.SavesAs limits refusals c disk saved) :
      CacheUse parse limits refusals sources disk (some c.directory) (savedAs saved) saved.disk

/-- The contents of the files that can be read, in the languages chosen for them. -/
def sources (unreadable : Path → Option Text) (disk : FileSystem) (r : Request) :
    Set (Text × Text) :=
  {source | ∃ p ∈ Loading.filesOf disk r.paths, ∃ bytes,
    Loading.readUnder unreadable disk p = .ok bytes ∧
    source = (Loading.contentOf bytes,
      Batch.languageFor r.options ⟨p.toText, Loading.contentOf bytes⟩)}

/-- The cache of a directory held nothing at first, and calls used it since. No source that they
asked for has the digest of another one that is analyzed now. -/
structure StartedEmpty (parse : TreeParser) (directory : Path) (calls : Set BatchCall)
    (sources : Set (Text × Text)) (start disk : FileSystem) : Prop where
  empty : HoldsNothing directory start
  reached : Relation.ReflTransGen (CacheStep parse directory calls) ⟨start, none⟩ ⟨disk, none⟩
  distinct : ∀ known ∈ asked calls, ∀ source ∈ sources,
    Sha256.digest (keyBytes known.1 known.2) = Sha256.digest (keyBytes source.1 source.2) →
      keyBytes known.1 known.2 = keyBytes source.1 source.2

namespace StartedEmpty

variable {parse : TreeParser} {directory : Path} {calls : Set BatchCall}
  {sources : Set (Text × Text)} {start disk : FileSystem}

theorem holdsAnalyses (h : StartedEmpty parse directory calls sources start disk)
    {refusals : Cache.Refusals} {c : Cache}
    (hload : Cache.loadedUnder refusals { directory } disk = .ok c) :
    c.directory = directory ∧ HoldsAnalyses (analysisOf parse) (asked calls) c.entries := by
  have hfaithful := faithful_of_holdsNothing h.empty h.reached
  have hstart := hfaithful.start (c := c) (by
    rw [(Cache.gives_load _ _).outcome, Cache.loaded_of_loadedUnder hload])
  exact hstart.cache c rfl

theorem findsAnalysis (h : StartedEmpty parse directory calls sources start disk) {c : Cache}
    (hc : HoldsAnalyses (analysisOf parse) (asked calls) c.entries) (limits : Limits)
    {o : Batch.Options} {u : SourceUnit} (hu : (u.content, Batch.languageFor o u) ∈ sources)
    (hlanguage : IsSupported (Batch.languageFor o u)) :
    Batch.FindsAnalysis parse limits o (some c) u := by
  refine Cache.exists_found limits hc (fun known hknown hkey => ?_) hlanguage
  have hdistinct := h.distinct known hknown _ hu
  obtain ⟨k, -, hasks⟩ := hknown
  exact eq_of_keyOf_eq hasks.isSupported hlanguage hdistinct hkey

end StartedEmpty

/-- The entry of a file that was read. -/
def unitEntry (parse : TreeParser) (r : Request) (u : SourceUnit) : FileFunctions :=
  Batch.resultOf u (analysisOf parse u.content (Batch.languageFor r.options u))

variable {parse : TreeParser} {unreadable : Path → Option Text} (settings : LogSettings)
  {r : Request}

theorem mem_sources_iff {source : Text × Text} : source ∈ sources unreadable disk r ↔
    ∃ u ∈ Loading.units (loadedFiles unreadable disk r.paths),
      source = (u.content, Batch.languageFor r.options u) := by
  constructor
  · rintro ⟨p, hp, bytes, hread, rfl⟩
    exact ⟨_, Loading.mem_units_loadedAs.2 ⟨p, hp, bytes, hread, rfl⟩, rfl⟩
  · rintro ⟨u, hu, rfl⟩
    obtain ⟨p, hp, bytes, hread, rfl⟩ := Loading.mem_units_loadedAs.1 hu
    exact ⟨p, hp, bytes, hread, rfl⟩

/-- Unless the cache stops it, a run collects the files as they were loaded and the results of
their analyses. -/
theorem exists_ends_collectUnder (machine : Machine) (refusals : Cache.Refusals)
    (analyzed : ∀ source ∈ sources unreadable disk r, ∃ records,
      analysisOutcome parse source.1 source.2 = .ok records)
    (kept : ∀ source ∈ sources unreadable disk r,
      machine.lost (analysisOf parse source.1 source.2) = none)
    (startedEmpty : ∀ directory, r.cachePath? = some directory → ∃ calls start,
      StartedEmpty parse directory calls (sources unreadable disk r) start disk) :
    ∃ ended disk', CacheUse parse machine.limits refusals (sources unreadable disk r) disk
        r.cachePath? ended disk' ∧
      Ends (collectUnder ⟨analyzeBy parse, machine, unreadable, refusals⟩ settings r) disk
        (ended.map fun _ => (loadedFiles unreadable disk r.paths,
          (Loading.units (loadedFiles unreadable disk r.paths)).map (unitEntry parse r)))
        disk' := by
  have hsource : ∀ u ∈ Loading.units (loadedFiles unreadable disk r.paths),
      (u.content, Batch.languageFor r.options u) ∈ sources unreadable disk r :=
    fun u hu => mem_sources_iff.2 ⟨u, hu, rfl⟩
  have hanalyzed : ∀ u ∈ Loading.units (loadedFiles unreadable disk r.paths), ∃ records,
      analysisOutcome parse u.content (Batch.languageFor r.options u) = .ok records :=
    fun u hu => analyzed (u.content, Batch.languageFor r.options u) (hsource u hu)
  have hkept : ∀ u ∈ Loading.units (loadedFiles unreadable disk r.paths),
      machine.lost (analysisOf parse u.content (Batch.languageFor r.options u)) = none :=
    fun u hu => kept (u.content, Batch.languageFor r.options u) (hsource u hu)
  cases hpath : r.cachePath? with
  | none =>
    refine ⟨.ok (), disk, .absent, ?_⟩
    exact ends_collectUnder_of_ran settings (openedCache_of_none refusals hpath)
      (Batch.ran_none_eq machine hanalyzed hkept) (ends_saveCache_none machine.limits refusals disk)
  | some directory =>
    cases hload : Cache.loadedUnder refusals { directory } disk with
    | error e =>
      refine ⟨.error (.reading e), disk, .unread hload, ?_⟩
      exact ends_collectUnder_of_unopened settings (openedCache_of_unread hpath hload)
    | ok c =>
      have hopened := openedCache_of_loaded hpath hload
      obtain ⟨calls, start, hstarted⟩ := startedEmpty directory hpath
      obtain ⟨rfl, hc⟩ := hstarted.holdsAnalyses hload
      have hcached : ∀ u ∈ Loading.units (loadedFiles unreadable disk r.paths),
          Batch.FindsAnalysis parse machine.limits r.options (some c) u := by
        intro u hu
        obtain ⟨records, hrecords⟩ := hanalyzed u hu
        exact hstarted.findsAnalysis hc machine.limits (hsource u hu)
          (isSupported_of_eq_ok hrecords)
      rcases Batch.ran_some_cases machine hanalyzed hkept hcached with
        ⟨⟨u, hu, hdeep⟩, left, hran⟩ | ⟨hshallow, c', hran⟩
      · have hends := ends_collectUnder_of_ran_error settings hopened hran
        exact ⟨_, disk, .unstored ⟨_, hsource u hu, hdeep⟩, hends⟩
      · obtain ⟨hdirectory, hc'⟩ := Batch.holdsAnalyses_ran machine (fun _ _ => Set.mem_univ _)
          (hc.mono (Set.subset_univ _))
        rw [hran] at hdirectory hc'
        obtain ⟨saved, hsaved, hsaves⟩ :=
          Cache.exists_returns_saveUnder machine.limits refusals c' disk
        refine ⟨savedAs saved, saved.disk, ?_,
          ends_collectUnder_of_ran settings hopened hran (ends_saveCache hsaved)⟩
        have hdirectory' : c'.directory = c.directory := hdirectory
        rw [← hdirectory']
        refine .saved (fun source hin => ?_) hc' hsaves
        obtain ⟨u, hu, rfl⟩ := mem_sources_iff.1 hin
        exact hshallow u hu

end

/-- The entry of a file: why it cannot be read, or the functions of its content. -/
def entryAt (parse : TreeParser) (unreadable : Path → Option Text) (disk : FileSystem)
    (r : Request) (p : Path) : FileFunctions :=
  match Loading.readUnder unreadable disk p with
  | .error message => { path := p.toText, errors := [message] }
  | .ok bytes =>
    let content := Loading.contentOf bytes
    { path := p.toText
      functions := analysisOf parse content (Batch.languageFor r.options ⟨p.toText, content⟩) }

theorem entryOf_loadedAs (parse : TreeParser) (unreadable : Path → Option Text)
    (disk : FileSystem) (r : Request) (p : Path) :
    Loading.entryOf (unitEntry parse r) (Loading.loadedAs unreadable disk p) =
      entryAt parse unreadable disk r p := by
  unfold Loading.loadedAs entryAt
  cases Loading.readUnder unreadable disk p with
  | ok bytes => rfl
  | error message => rfl

/-- The file with its calls resolved, if this is asked for. -/
def filteredIf (resolve : Bool) (known : Text → Bool) (f : FileFunctions) : FileFunctions :=
  if resolve then f.filterCalls known else f

/-- Entries with their calls resolved, or as they are, go back to the places of their files. -/
theorem merge_filteredIf {entry : SourceUnit → FileFunctions} (hpath : ∀ u, (entry u).path = u.path)
    (unreadable : Path → Option Text) (disk : FileSystem) (paths : List Text)
    (known : Text → Bool) (resolve : Bool) :
    Loading.merge (loadedFiles unreadable disk paths)
      (((Loading.units (loadedFiles unreadable disk paths)).map entry).map
        (filteredIf resolve known)) =
      .ok (((Loading.filesOf disk paths).map fun p =>
        Loading.entryOf entry (Loading.loadedAs unreadable disk p)).map
          (filteredIf resolve known)) := by
  have hmerge := Loading.merge_units (fun u => filteredIf resolve known (entry u))
    (by cases resolve <;> exact hpath) (loadedFiles unreadable disk paths)
  rw [List.map_map]
  refine hmerge.trans ?_
  rw [loadedFiles, List.map_map, List.map_map, Except.ok.injEq]
  refine List.map_congr_left fun p _ => ?_
  cases resolve with
  | false => rfl
  | true => exact Loading.entryOf_filterCalls known p

/-- Files can be printed unless their functions are nested too deep to be turned into data. -/
theorem render_cases (limits : Limits) (compact : Bool) (files : List FileFunctions) :
    DepthWithin limits.data files ∧ (∃ text, render limits compact files = .ok text) ∨
      ¬ DepthWithin limits.data files ∧ render limits compact files = .error .data := by
  have hdump (f : FileFunctions) :
      FunctionRecord.depthAll f.functions ≤ limits.data ∧
          (∃ v, f.dump limits.data .camelCase = .ok v) ∨
        limits.data < FunctionRecord.depthAll f.functions ∧
          f.dump limits.data .camelCase = .error .data := by
    rcases Nat.lt_or_ge limits.data (FunctionRecord.depthAll f.functions) with hdeep | hdepth
    · refine .inr ⟨hdeep, ?_⟩
      rw [FileFunctions.dump, FunctionRecord.dumpAll_eq_error .camelCase hdeep]
      rfl
    · refine .inl ⟨hdepth, ?_⟩
      rw [FileFunctions.dump, FunctionRecord.dumpAll_eq_ok .camelCase hdepth]
      exact ⟨_, rfl⟩
  unfold render
  cases hvalues : files.mapM (FileFunctions.dump limits.data .camelCase) with
  | ok values =>
    refine .inl ⟨fun f hf => ?_, _, rfl⟩
    obtain ⟨v, hv⟩ := exists_ok_of_mem hvalues hf
    rcases hdump f with ⟨hdepth, -⟩ | ⟨-, herror⟩
    · exact hdepth
    · cases hv.symm.trans herror
  | error e =>
    obtain ⟨f, hf, he⟩ := exists_mem_of_mapM_eq_error hvalues
    rcases hdump f with ⟨-, v, hv⟩ | ⟨hdeep, herror⟩
    · cases hv.symm.trans he
    · cases herror.symm.trans he
      exact .inr ⟨fun hwithin => absurd (hwithin f hf) (Nat.not_le_of_gt hdeep), rfl⟩

/-- What a run prints of the files of a request, by how it ended its use of the cache. They are
printed unless functions are nested too deep to be resolved, if this is asked for, or to be turned
into data. -/
inductive Prints (limits : Limits) (resolve compact : Bool) (known : Text → Bool)
    (files : List FileFunctions) : Except Failure Unit → Output → Prop
  | stopped {e : Failure} : Prints limits resolve compact known files (.error e) (.ofFailure e)
  | unresolved (asked : resolve = true) (deep : ¬ DepthWithin limits.resolving files) :
      Prints limits resolve compact known files (.ok ()) (.ofFailure (.nesting .resolving))
  | traced (resolves : resolve = true → DepthWithin limits.resolving files)
      (deep : ¬ DepthWithin limits.data files) :
      Prints limits resolve compact known files (.ok ()) (.ofTrace .data)
  | printed {text : Text} (resolves : resolve = true → DepthWithin limits.resolving files)
      (shallow : DepthWithin limits.data files)
      (h : render limits compact (files.map (filteredIf resolve known)) = .ok text) :
      Prints limits resolve compact known files (.ok ()) { out := text }

theorem depthWithin_map_filteredIf {limit : Nat} {resolve : Bool} {known : Text → Bool}
    {files : List FileFunctions} :
    DepthWithin limit (files.map (filteredIf resolve known)) ↔ DepthWithin limit files := by
  cases resolve with
  | false => simp [filteredIf, DepthWithin]
  | true =>
    change DepthWithin limit (files.map (.filterCalls known)) ↔ _
    exact depthWithin_map_filterCalls

/-- Where resolving the results goes as deep as they are nested, their files are printed as far
as these can be turned into data. -/
theorem prints_of_merge {limits : Limits} {resolve compact : Bool} {known : Text → Bool}
    {loaded : List LoadedFile} {results files : List FileFunctions}
    (resolves : resolve = true → DepthWithin limits.resolving files)
    (hresolved : resolvedIf resolve limits results = .ok (results.map (filteredIf resolve known)))
    (hmerge : Loading.merge loaded (results.map (filteredIf resolve known)) =
      .ok (files.map (filteredIf resolve known))) :
    Prints limits resolve compact known files (.ok ())
      (.of limits compact (inventoryOf resolve limits loaded results)) := by
  have hinventory : inventoryOf resolve limits loaded results =
      .ok (files.map (filteredIf resolve known)) := by
    rw [inventoryOf, hresolved]
    change (Loading.merge loaded (results.map (filteredIf resolve known))).mapError _ = _
    rw [hmerge]
    rfl
  rw [hinventory, Output.of, Output.ofFiles]
  rcases render_cases limits compact (files.map (filteredIf resolve known)) with
    ⟨hshallow, text, htext⟩ | ⟨hdeep, herror⟩
  · rw [htext]
    exact .printed resolves (depthWithin_map_filteredIf.1 hshallow) htext
  · rw [herror]
    exact .traced resolves (mt depthWithin_map_filteredIf.2 hdeep)

/-- Where the results are those of the units, what a run prints is the inventory of all files,
resolved against the names in them. -/
theorem exists_prints (entry : SourceUnit → FileFunctions) (hpath : ∀ u, (entry u).path = u.path)
    (unreadable : Path → Option Text) (disk : FileSystem) (paths : List Text) :
    let files := (Loading.filesOf disk paths).map fun p =>
      Loading.entryOf entry (Loading.loadedAs unreadable disk p)
    let loaded := loadedFiles unreadable disk paths
    ∃ known, (∀ t, known t = true ↔ t ≠ anonymous ∧ NamedIn files t) ∧
      ∀ limits resolve compact, Prints limits resolve compact known files (.ok ())
        (.of limits compact
          (inventoryOf resolve limits loaded ((Loading.units loaded).map entry))) := by
  intro files loaded
  have hdepths (limit : Nat) : DepthWithin limit ((Loading.units loaded).map entry) ↔
      DepthWithin limit files := Loading.depthWithin_units
  obtain ⟨known, hknown, hresolve⟩ := exists_resolveFiles_eq ((Loading.units loaded).map entry)
  refine ⟨known, fun t => ?_, fun limits resolve compact => ?_⟩
  · rw [hknown]
    exact and_congr_right fun _ => Loading.namedIn_units
  · have hmerge := merge_filteredIf hpath unreadable disk paths known resolve
    cases resolve with
    | false => exact prints_of_merge (by simp) (by simp [resolvedIf, filteredIf]) hmerge
    | true =>
      by_cases hdepth : DepthWithin limits.resolving files
      · exact prints_of_merge (fun _ => hdepth) (hresolve _ ((hdepths _).2 hdepth)) hmerge
      · have herror := resolveFiles_eq_error (mt (hdepths limits.resolving).1 hdepth)
        rw [inventoryOf, resolvedIf, if_pos rfl, herror]
        exact .unresolved rfl hdepth

namespace Sample

open CacheState.Sample (content parse deepParse)

def disk : FileSystem :=
  { tree := .directory [("lib", .directory [
      ("f.js", .file (Text.encode content)), ("locked.js", .file [])])] }

def readable : Path := .ofText "lib/f.js"

def locked : Path := .ofText "lib/locked.js"

def missing : Path := .ofText "lib/gone.js"

def unreadable (p : Path) : Option Text :=
  if p = locked then some "[Errno 13] Permission denied: 'lib/locked.js'" else none

/-- Names a directory, a file in it and a file that is not there, with an empty cache. -/
def request : Request :=
  { paths := ["lib", "lib/f.js", "lib/gone.js"], cacheDirectory := some "cache" }

theorem filesOf_request :
    Loading.filesOf disk request.paths = [readable, locked, readable, missing] := by
  have hfound : Loading.sourceFiles disk Loading.defaultExclusions (.ofText "lib") =
      [readable, locked] := by
    show List.mergeSort [readable, locked] (fun p q => !q.lt p) = _
    exact List.mergeSort_of_pairwise (by decide +kernel)
  have hlib : Loading.expanded disk Loading.defaultExclusions (.ofText "lib") =
      [readable, locked] := by
    rw [Loading.expanded, if_pos (by decide +kernel), hfound]
  show Loading.expanded disk Loading.defaultExclusions (.ofText "lib") ++ [readable, missing] = _
  rw [hlib]
  rfl

theorem contentOf_encode : Loading.contentOf (Text.encode content) = content := by
  decide +kernel

theorem source_readable {bytes : List UInt8}
    (hread : Loading.readUnder unreadable disk readable = .ok bytes) :
    (Loading.contentOf bytes, Batch.languageFor request.options
      ⟨readable.toText, Loading.contentOf bytes⟩) = (content, Text.ofString "javascript") := by
  obtain rfl : Text.encode content = bytes := Except.ok.inj hread
  have hlanguage : Batch.languageFor request.options ⟨readable.toText, content⟩ =
      Text.ofString "javascript" := by decide +kernel
  rw [contentOf_encode, hlanguage]

theorem sources_request :
    sources unreadable disk request = {(content, Text.ofString "javascript")} := by
  ext source
  constructor
  · rintro ⟨p, hp, bytes, hread, rfl⟩
    rw [filesOf_request] at hp
    simp only [List.mem_cons, List.not_mem_nil, or_false] at hp
    rcases hp with rfl | rfl | rfl | rfl
    · exact source_readable hread
    · cases hread
    · exact source_readable hread
    · cases hread
  · rintro rfl
    have hread : Loading.readUnder unreadable disk readable = .ok (Text.encode content) := rfl
    refine ⟨readable, ?_, Text.encode content, hread, (source_readable hread).symm⟩
    rw [filesOf_request]
    exact List.mem_cons_self

theorem analyzed : ∀ source ∈ sources unreadable disk request, ∃ records,
    analysisOutcome parse source.1 source.2 = .ok records := by
  intro source hsource
  apply CacheState.Sample.analyzed
  rw [CacheState.Sample.asked_eq, ← sources_request]
  exact hsource

theorem startedEmpty (parse : TreeParser) : ∀ directory, request.cachePath? = some directory →
    ∃ calls start,
      StartedEmpty parse directory calls (sources unreadable disk request) start disk := by
  intro directory hdirectory
  obtain rfl : Path.ofText "cache" = directory := Option.some.inj hdirectory
  refine ⟨∅, disk, ?_, .refl, ?_⟩
  · intro bytes entries hread
    cases hread
  · rintro known ⟨k, hk, -⟩
    cases hk

/-- Two workers, of which the second one finishes first; records that are nested more than 198
deep do not come back from them. -/
def machine : Machine where
  processors := 2
  completion := List.reverse
  finishes := List.reverse_perm
  lost records :=
    if 198 < FunctionRecord.depthAll records then some "maximum recursion depth exceeded" else none

theorem kept : ∀ source ∈ sources unreadable disk request,
    machine.lost (analysisOf parse source.1 source.2) = none := by
  rw [sources_request]
  rintro _ rfl
  obtain ⟨records, hrecords, hdepth⟩ := CacheState.Sample.exists_records
  have hshallow : ¬ 198 < FunctionRecord.depthAll (analysisOf parse content "javascript") := by
    rw [analysisOf_of_eq_ok hrecords]
    omega
  exact if_neg hshallow

end Sample

end CommandLine

end FunctionInventory
