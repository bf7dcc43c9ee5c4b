import FunctionInventory.Proofs.Files
import FunctionInventory.Proofs.Forest
import FunctionInventory.Proofs.StoredAnalyses
import Mathlib.Logic.Relation

/-!
# The cache does not show

Whatever runs were made over a directory before, and however they ended, a batch with the
cache has the results that it has without one, unless a result is nested too deep to be stored, or
is lost on its way back from a worker. What carries this is that the cache holds nothing but
analyses, in memory and in its file.
-/
namespace FunctionInventory

/-- A call for the results of units that are given as data, in a supported language or in
those of their paths, on some machine. -/
structure BatchCall where
  machine : Machine
  settings : LogSettings
  options : Batch.Options
  units : List Value
  supported : ∀ l, options.language = some l → IsSupported l

namespace BatchCall

/-- What a call returns with a cache or without one, and the cache that it leaves. -/
def outcome (k : BatchCall) (parse : TreeParser) (cache : Option Cache) :
    Except BatchError (List FileFunctions × Option Cache) :=
  Batch.outcomeBy parse k.machine k.settings k.options cache k.units

/-- A call asks for the analysis of the content of each unit in its language. -/
def Asks (k : BatchCall) (source : Text × Text) : Prop :=
  ∃ units, Batch.checkUnits k.units = .ok units ∧
    ∃ u ∈ units, source = (u.content, Batch.languageFor k.options u)

theorem isSupported_languageFor (k : BatchCall) (u : SourceUnit) :
    IsSupported (Batch.languageFor k.options u) := by
  unfold Batch.languageFor
  split
  · next l hl =>
    split
    · exact isSupported_name _
    · exact k.supported l hl
  · exact isSupported_name _

theorem Asks.isSupported {k : BatchCall} {source : Text × Text} (h : k.Asks source) :
    IsSupported source.2 := by
  obtain ⟨units, -, u, -, rfl⟩ := h
  exact k.isSupported_languageFor u

theorem outcome_of_error {parse : TreeParser} {k : BatchCall} {e : BatchError}
    (hunits : Batch.checkUnits k.units = .error e) (cache : Option Cache) :
    k.outcome parse cache = .error e := by
  rw [outcome, Batch.outcomeBy_eq, hunits]
  rfl

theorem outcome_eq_ran {parse : TreeParser} {k : BatchCall} {units : List SourceUnit}
    (hunits : Batch.checkUnits k.units = .ok units) (cache : Option Cache) :
    k.outcome parse cache = Batch.ran k.machine (analysisOutcome parse) k.options cache units := by
  rw [outcome, Batch.outcomeBy_eq, hunits]
  rfl

end BatchCall

/-- A file tree, and the cache of the run that is under way, if there is one. -/
structure CacheState where
  disk : FileSystem
  cache : Option Cache

/-- Runs start with a cache that is loaded, make calls, which may fail, and save, and end at any
time. Writing the file may stop after any number of bytes. Whatever else is done to the file
tree, the cache file stays as it was or goes away. -/
inductive CacheStep (parse : TreeParser) (directory : Path) (calls : Set BatchCall) :
    CacheState → CacheState → Prop
  | start {disk : FileSystem} {c : Cache}
      (h : (Logged.outcome (Cache.load { directory } disk).run).1 = .ok c) :
      CacheStep parse directory calls ⟨disk, none⟩ ⟨disk, some c⟩
  | call {disk : FileSystem} {c : Cache} {k : BatchCall} (hk : k ∈ calls) :
      CacheStep parse directory calls ⟨disk, some c⟩
        ⟨disk, some (Batch.leftIn c (k.outcome parse (some c)))⟩
  | save {limits : Limits} {disk : FileSystem} {c : Cache} {saved : Cache.Saved}
      (h : (Logged.outcome (c.save limits disk)).1 = saved) :
      CacheStep parse directory calls ⟨disk, some c⟩ ⟨saved.disk, some saved.cache⟩
  | interrupted {limits : Limits} {disk made disk' : FileSystem} {c : Cache} {bytes : List UInt8}
      (n : Nat) (hmade : disk.makeDirectories c.directory = .ok made)
      (hbytes : c.encode limits = .ok bytes)
      (h : made.write c.path (bytes.take n) = .ok disk') :
      CacheStep parse directory calls ⟨disk, some c⟩ ⟨disk', some c⟩
  | finish {disk : FileSystem} {c : Cache} :
      CacheStep parse directory calls ⟨disk, some c⟩ ⟨disk, none⟩
  | elsewhere {disk disk' : FileSystem} {cache : Option Cache}
      (h : ∀ bytes, disk'.read (directory / Cache.fileName) = .ok bytes →
        disk.read (directory / Cache.fileName) = .ok bytes) :
      CacheStep parse directory calls ⟨disk, cache⟩ ⟨disk', cache⟩

/-- The sources that calls ask for. -/
def asked (calls : Set BatchCall) : Set (Text × Text) := {source | ∃ k ∈ calls, k.Asks source}

theorem mem_asked {calls : Set BatchCall} {k : BatchCall} (hk : k ∈ calls)
    {units : List SourceUnit} (hunits : Batch.checkUnits k.units = .ok units) :
    ∀ u ∈ units, (u.content, Batch.languageFor k.options u) ∈ asked calls :=
  fun u hu => ⟨k, hk, units, hunits, u, hu, rfl⟩

/-- In memory and in its file, the cache holds nothing but the analyses that are asked for. -/
structure CacheState.Faithful (parse : TreeParser) (directory : Path) (calls : Set BatchCall)
    (s : CacheState) : Prop where
  cache : ∀ c ∈ s.cache, c.directory = directory ∧
    HoldsAnalyses (analysisOf parse) (asked calls) c.entries
  file : ∀ bytes entries, s.disk.read (directory / Cache.fileName) = .ok bytes →
    Cache.contentOf bytes = .current entries →
    HoldsAnalyses (analysisOf parse) (asked calls) entries

section

variable {parse : TreeParser} {directory : Path} {calls : Set BatchCall}

/-- A file that was read holds what the cache held, or nothing that counts. -/
theorem holdsAnalyses_of_contentOf {limits : Limits} {c : Cache} {bytes : List UInt8}
    {entries : List (Value × Value)}
    (hc : HoldsAnalyses (analysisOf parse) (asked calls) c.entries)
    (hbytes : c.encode limits = .ok bytes) (n : Nat)
    (h : Cache.contentOf (bytes.take n) = .current entries) :
    HoldsAnalyses (analysisOf parse) (asked calls) entries := by
  by_cases hn : n < bytes.length
  · rw [Cache.contentOf_take hc.plain hbytes hn] at h
    cases h
  · rw [List.take_of_length_le (by omega), Cache.contentOf_write hc.plain hbytes] at h
    cases h
    exact hc

theorem CacheState.Faithful.of_write {made disk : FileSystem} {bytes : List UInt8} {c : Cache}
    (hdirectory : c.directory = directory)
    (hc : HoldsAnalyses (analysisOf parse) (asked calls) c.entries)
    (hdisk : made.write (directory / Cache.fileName) bytes = .ok disk)
    (hbytes : ∀ entries, Cache.contentOf bytes = .current entries →
      HoldsAnalyses (analysisOf parse) (asked calls) entries) :
    CacheState.Faithful parse directory calls ⟨disk, some c⟩ where
  cache := by
    rintro _ ⟨⟩
    exact ⟨hdirectory, hc⟩
  file := by
    intro read entries hread hcontent
    rw [FileSystem.read_write hdisk] at hread
    cases hread
    exact hbytes entries hcontent

theorem CacheState.Faithful.start {disk : FileSystem} {c : Cache}
    (hs : CacheState.Faithful parse directory calls ⟨disk, none⟩)
    (h : (Logged.outcome (Cache.load { directory } disk).run).1 = .ok c) :
    CacheState.Faithful parse directory calls ⟨disk, some c⟩ := by
  refine ⟨?_, hs.file⟩
  rintro _ ⟨⟩
  rw [(Cache.gives_load _ _).outcome, Cache.loaded, Cache.loadedUnder] at h
  split at h
  · obtain ⟨bytes, hread, rfl⟩ := map_eq_ok_iff.1 h
    obtain ⟨-, hread⟩ := Cache.readUnder_eq_ok_iff.1 hread
    split
    · exact ⟨rfl, holdsAnalyses_nil⟩
    · exact ⟨rfl, holdsAnalyses_nil⟩
    · next entries hentries => exact ⟨rfl, hs.file bytes entries hread hentries⟩
  · cases h
    exact ⟨rfl, holdsAnalyses_nil⟩

theorem CacheState.Faithful.save {limits : Limits} {disk : FileSystem} {c : Cache}
    (hs : CacheState.Faithful parse directory calls ⟨disk, some c⟩) {saved : Cache.Saved}
    (h : (Logged.outcome (c.save limits disk)).1 = saved) :
    CacheState.Faithful parse directory calls ⟨saved.disk, some saved.cache⟩ := by
  obtain ⟨hdirectory, hc⟩ := hs.cache c rfl
  obtain ⟨saved', hreturns, hsaved, hentries, hdisk⟩ := c.exists_returns_save limits disk
  obtain rfl : saved' = saved := hreturns.outcome.symm.trans h
  rw [← hentries] at hc
  rw [hdirectory] at hsaved
  rw [Cache.path, hdirectory] at hdisk
  rcases hdisk with hdisk | ⟨-, e, hdisk⟩ | ⟨made, bytes, hdisk, hbytes⟩
  · rw [hdisk]
    refine ⟨?_, hs.file⟩
    rintro _ ⟨⟩
    exact ⟨hsaved, hc⟩
  · refine ⟨?_, fun bytes entries hread => ?_⟩
    · rintro _ ⟨⟩
      exact ⟨hsaved, hc⟩
    · obtain ⟨disk', hwrite⟩ := FileSystem.exists_write (by decide) hread []
      rw [hdisk] at hwrite
      cases hwrite
  · refine .of_write hsaved hc hdisk fun entries hcontent => ?_
    rcases hbytes with rfl | hbytes
    · cases hcontent
    · rw [Cache.contentOf_write (hs.cache c rfl).2.plain hbytes] at hcontent
      cases hcontent
      exact (hs.cache c rfl).2

/-- Each step keeps the cache faithful, whatever analyses fail and whatever keys agree. -/
theorem CacheStep.faithful {s s' : CacheState} (h : CacheStep parse directory calls s s')
    (hs : CacheState.Faithful parse directory calls s) :
    CacheState.Faithful parse directory calls s' := by
  cases h with
  | start h => exact hs.start h
  | @call disk c k hk =>
    obtain ⟨hdirectory, hc⟩ := hs.cache c rfl
    refine ⟨?_, hs.file⟩
    rintro _ ⟨⟩
    cases hunits : Batch.checkUnits k.units with
    | error e =>
      rw [k.outcome_of_error hunits, Batch.leftIn, Batch.left_of_checkUnits hunits]
      exact ⟨hdirectory, hc⟩
    | ok units =>
      rw [k.outcome_eq_ran hunits]
      obtain ⟨hdirectory', hc'⟩ := Batch.holdsAnalyses_ran k.machine (mem_asked hk hunits) hc
      exact ⟨hdirectory'.trans hdirectory, hc'⟩
  | save h => exact hs.save h
  | @interrupted limits disk made disk' c bytes n _ hbytes h =>
    obtain ⟨hdirectory, hc⟩ := hs.cache c rfl
    rw [Cache.path, hdirectory] at h
    exact .of_write hdirectory hc h fun entries => holdsAnalyses_of_contentOf hc hbytes n
  | finish => exact ⟨by simp, hs.file⟩
  | elsewhere h =>
    exact ⟨hs.cache, fun bytes entries hread => hs.file bytes entries (h bytes hread)⟩

/-- The cache file of a directory has no entries, if there is one. -/
def HoldsNothing (directory : Path) (disk : FileSystem) : Prop :=
  ∀ bytes entries, disk.read (directory / Cache.fileName) = .ok bytes →
    Cache.contentOf bytes = .current entries → entries = []

theorem holdsNothing_of_fresh {disk : FileSystem}
    (fresh : disk.pathExists (directory / Cache.fileName) = false) :
    HoldsNothing directory disk := by
  intro bytes entries hread
  rw [FileSystem.pathExists_of_read hread] at fresh
  cases fresh

/-- A cache that started empty is faithful ever after. -/
theorem faithful_of_holdsNothing {disk : FileSystem} {s : CacheState}
    (empty : HoldsNothing directory disk)
    (reached : Relation.ReflTransGen (CacheStep parse directory calls) ⟨disk, none⟩ s) :
    CacheState.Faithful parse directory calls s := by
  induction reached with
  | refl =>
    refine ⟨by simp, fun bytes entries hread hcontent => ?_⟩
    rw [empty bytes entries hread hcontent]
    exact holdsAnalyses_nil
  | tail _ hstep ih => exact hstep.faithful ih

end

/-- Where digests differ, keys do. -/
theorem keyOf_injOn {calls : Set BatchCall} (distinct : Set.InjOn Sha256.digest
      {bytes | ∃ source ∈ asked calls, bytes = keyBytes source.1 source.2}) :
    Set.InjOn (fun source => keyOf source.1 source.2) (asked calls) := by
  intro source hsource source' hsource' hkey
  have hdistinct := distinct.eq_iff ⟨source, hsource, rfl⟩ ⟨source', hsource', rfl⟩
  obtain ⟨k, -, hsource⟩ := hsource
  obtain ⟨k', -, hsource'⟩ := hsource'
  exact eq_of_keyOf_eq hsource.isSupported hsource'.isSupported hdistinct.1 hkey

namespace Batch

variable {parse : TreeParser} {machine : Machine} {o : Options} {cache : Option Cache}
  {units : List SourceUnit}

/-- What a batch gets of an analysis that succeeds, if it is not lost. -/
theorem worked_eq_ok {analysis : Text → Text → Except AnalysisError (List FunctionRecord)}
    {content language : Text} {records : List FunctionRecord}
    (h : analysis content language = .ok records) (back : machine.lost records = none) :
    worked machine analysis o cache units content language = .ok records := by
  unfold worked
  split
  · exact handed_eq_ok_iff.2 ⟨h, back⟩
  · exact h

/-- What is found for a unit, if anything, is its analysis. -/
def FindsAnalysis (parse : TreeParser) (limits : Limits) (o : Options) (cache : Option Cache)
    (u : SourceUnit) : Prop :=
  ∃ records, cachedRecords limits o cache u = .ok records ∧ ∀ found ∈ records,
    found = analysisOf parse u.content (languageFor o u) ∧
      FunctionRecord.depthAll found ≤ limits.data

theorem findsAnalysis_none {limits : Limits} {u : SourceUnit} :
    FindsAnalysis parse limits o none u := ⟨none, rfl, by simp⟩

namespace FindsAnalysis

variable {u : SourceUnit}

theorem looked {limits : Limits} (h : FindsAnalysis parse limits o cache u) :
    ∃ records, cachedRecords limits o cache u = .ok records :=
  h.imp fun _ hrecords => hrecords.1

theorem resultFor_eq (h : FindsAnalysis parse machine.limits o cache u)
    (analyzed : ∃ records, analysisOutcome parse u.content (languageFor o u) = .ok records)
    (back : machine.lost (analysisOf parse u.content (languageFor o u)) = none) :
    resultFor machine.limits (worked machine (analysisOutcome parse) o cache units) o cache u =
      resultOf u (analysisOf parse u.content (languageFor o u)) := by
  obtain ⟨records, hrecords⟩ := analyzed
  obtain ⟨found, hfound, hsame⟩ := h
  rw [analysisOf_of_eq_ok hrecords] at back hsame ⊢
  rw [resultFor, hfound]
  cases found with
  | some found => rw [(hsame found rfl).1]
  | none =>
    rw [worked_eq_ok hrecords back]
    rfl

theorem unitTooDeep_iff (h : FindsAnalysis parse machine.limits o cache u)
    (analyzed : ∃ records, analysisOutcome parse u.content (languageFor o u) = .ok records)
    (back : machine.lost (analysisOf parse u.content (languageFor o u)) = none) :
    UnitTooDeep machine.limits (worked machine (analysisOutcome parse) o cache units) o cache u ↔
      cache.isSome ∧ machine.limits.data <
        FunctionRecord.depthAll (analysisOf parse u.content (languageFor o u)) := by
  constructor
  · rintro ⟨stored, -, records, hrecords, hdeep⟩
    rw [analysisOf_of_worked hrecords]
    exact ⟨stored, hdeep⟩
  · rintro ⟨stored, hdeep⟩
    obtain ⟨records, hrecords⟩ := analyzed
    obtain ⟨found, hfound, hsame⟩ := h
    rw [analysisOf_of_eq_ok hrecords] at back hdeep hsame
    cases found with
    | some found =>
      obtain ⟨rfl, hdepth⟩ := hsame found rfl
      exact absurd hdepth (Nat.not_le_of_gt hdeep)
    | none => exact ⟨stored, hfound, records, worked_eq_ok hrecords back, hdeep⟩

end FindsAnalysis

theorem not_exists_unitFails {limits : Limits} (analyzed : ∀ u ∈ units, ∃ records,
      analysisOutcome parse u.content (languageFor o u) = .ok records) :
    ¬ ∃ u ∈ units, UnitFails limits (analysisOutcome parse) o cache u := by
  rintro ⟨u, hu, -, e, he⟩
  obtain ⟨records, hrecords⟩ := analyzed u hu
  rw [he] at hrecords
  cases hrecords

/-- A batch whose units can be looked up and whose analyses succeed returns, unless a unit is
nested too deep to be stored. -/
theorem ran_cases (machine : Machine) (cache : Option Cache)
    (looked : ∀ u ∈ units, ∃ records, cachedRecords machine.limits o cache u = .ok records)
    (analyzed : ∀ u ∈ units, ∃ records,
      analysisOutcome parse u.content (languageFor o u) = .ok records) :
    ((∃ u ∈ units, UnitTooDeep machine.limits
          (worked machine (analysisOutcome parse) o cache units) o cache u) ∧
        ∃ left, ran machine (analysisOutcome parse) o cache units =
          .error (.unstored (.nesting .data) left)) ∨
      (¬ ∃ u ∈ units, UnitTooDeep machine.limits
          (worked machine (analysisOutcome parse) o cache units) o cache u) ∧
        ∃ cache', cache'.isSome = cache.isSome ∧
          ran machine (analysisOutcome parse) o cache units =
            .ok (units.map (resultFor machine.limits
              (worked machine (analysisOutcome parse) o cache units) o cache), cache') := by
  obtain ⟨jobs, hjobs⟩ := exists_jobs_iff.2 looked
  have hends := runEnds_ran (analysisOutcome parse) hjobs
  generalize ran machine (analysisOutcome parse) o cache units = r at hends
  cases hends with
  | fails _ h => exact absurd h (not_exists_unitFails analyzed)
  | unstored _ deep => exact .inl ⟨deep, _, rfl⟩
  | returns _ shallow kept => exact .inr ⟨shallow, _, kept, rfl⟩

/-- Without a cache, a batch whose analyses succeed returns. -/
theorem ran_none (machine : Machine) (analyzed : ∀ u ∈ units, ∃ records,
      analysisOutcome parse u.content (languageFor o u) = .ok records) :
    ran machine (analysisOutcome parse) o none units = .ok (units.map (resultFor machine.limits
      (worked machine (analysisOutcome parse) o none units) o none), none) := by
  rcases ran_cases machine none (fun u _ => ⟨none, rfl⟩) analyzed with
    ⟨⟨u, -, stored, -⟩, -⟩ | ⟨-, cache', kept, hran⟩
  · cases stored
  · rw [Option.isSome_none, Option.isSome_eq_false_iff, Option.isNone_iff_eq_none] at kept
    rw [hran, kept]

end Batch

namespace CacheState.Sample

open Extraction

def content : Text := "function f() {}"

def declaration : SyntaxNode := {
  kind := "function_declaration", start := 0, stop := 15, children := [
    { kind := "function", start := 0, stop := 8, named := false },
    { kind := "identifier", start := 9, stop := 10, field := some "name" },
    { kind := "formal_parameters", start := 10, stop := 12, field := some "parameters"
      children := [
        { kind := "(", start := 10, stop := 11, named := false },
        { kind := ")", start := 11, stop := 12, named := false }] },
    { kind := "statement_block", start := 13, stop := 15, field := some "body"
      children := [
        { kind := "\x7b", start := 13, stop := 14, named := false },
        { kind := "\x7d", start := 14, stop := 15, named := false }] }] }

def tree : SyntaxNode := { kind := "program", start := 0, stop := 15, children := [declaration] }

/-- Takes every source for the one that the tree is of. -/
def parse : TreeParser := { tree := fun _ _ => some (tree, false) }

def unit : SourceUnit := ⟨"f.js", content⟩

def call : BatchCall where
  machine := {}
  settings := {}
  options := {}
  units := [unit.dump]
  supported := by simp

def directory : Path := .ofText "cache"

theorem functionSites : (Site.nesting.preorder ⟨[], tree⟩).filter (·.isFunction .javaScript) =
    [⟨[tree], declaration⟩] := by
  simp [Nesting.preorder_eq, Site.nesting, Site.children, SyntaxNode.namedChildren, tree,
    declaration, Site.isFunction, Profile.isFunction, Profile.javaScript]

theorem calls_declaration : calls (.ofText content) declaration = .ok ∅ := by
  have hcallees : declaration.preorder.filterMap bareCallee = [] := by
    simp [SyntaxNode.preorder_eq, SyntaxNode.namedChildren, declaration, bareCallee]
  rw [calls, hcallees]
  rfl

theorem readable : Readable .javaScript (.ofText content) tree := by
  rw [Readable, forall_functions_iff, functionSites, List.forall_mem_singleton]
  refine ⟨{ name := "f", lines := lineRange (.ofText content) 0 15, sourceText := content }, ?_⟩
  refine (record_eq_ok_iff ..).2 ⟨?_, rfl, rfl, rfl, ?_, rfl, calls_declaration⟩
  all_goals decide +kernel

theorem checkUnits_call : Batch.checkUnits call.units = .ok [unit] := rfl

theorem languageFor_unit : Batch.languageFor {} unit = "javascript" := by
  decide +kernel

theorem asked_eq : asked {call} = {(content, Text.ofString "javascript")} := by
  ext source
  constructor
  · rintro ⟨_, rfl, units, hchecked, u, hu, rfl⟩
    cases checkUnits_call.symm.trans hchecked
    rw [List.mem_singleton] at hu
    rw [hu]
    exact congrArg (Prod.mk content) languageFor_unit
  · rintro rfl
    rw [← languageFor_unit]
    exact mem_asked (Set.mem_singleton call) checkUnits_call _ (List.mem_singleton_self _)

/-- There is one function, so that no records are nested. -/
theorem exists_records : ∃ records, analysisOutcome parse content "javascript" = .ok records ∧
    FunctionRecord.depthAll records ≤ 1 := by
  obtain ⟨records, hrecords⟩ := readable.exists_forest
  refine ⟨records, ?_, (depthAll_forest_le _ _ hrecords).trans ?_⟩
  · rw [← functions_eq_forest] at hrecords
    exact analysisOutcome_of_parse (l := .javaScript) (by decide +kernel) rfl hrecords
  · rw [List.flatMap_singleton, List.countP_eq_length_filter, functionSites]
    rfl

theorem analyzed : ∀ source ∈ asked {call}, ∃ records,
    analysisOutcome parse source.1 source.2 = .ok records := by
  rw [asked_eq]
  rintro _ rfl
  exact exists_records.imp fun _ h => h.1

theorem distinct : Set.InjOn Sha256.digest
    {bytes | ∃ source ∈ asked {call}, bytes = keyBytes source.1 source.2} := by
  rw [asked_eq]
  refine Set.Subsingleton.injOn ?_ _
  rintro _ ⟨_, rfl, rfl⟩ _ ⟨_, rfl, rfl⟩
  rfl

theorem fresh : FileSystem.pathExists {} (directory / Cache.fileName) = false := by
  rfl

theorem exists_write_made (made : FileSystem)
    (h : FileSystem.makeDirectories {} directory = .ok made) :
    ∃ disk, made.write (directory / Cache.fileName) [] = .ok disk := by
  rw [FileSystem.makeDirectories] at h
  obtain rfl := Except.ok.inj h
  exact ⟨_, rfl⟩

/-- After a run that made the call and saved, a second run can start. -/
theorem exists_second_run : ∃ disk c,
    Relation.ReflTransGen (CacheStep parse directory {call}) ⟨{}, none⟩ ⟨disk, some c⟩ := by
  have hload : (Logged.outcome (Cache.load { directory } {}).run).1 = .ok { directory } := by
    rw [(Cache.gives_load _ _).outcome]
    rfl
  have hfirst : Relation.ReflTransGen (CacheStep parse directory {call}) ⟨{}, none⟩
      ⟨{}, some { directory }⟩ := .single (.start hload)
  have hcalled := hfirst.tail (.call (Set.mem_singleton call))
  obtain ⟨hdirectory, -⟩ :=
    (faithful_of_holdsNothing (holdsNothing_of_fresh fresh) hcalled).cache _ rfl
  generalize Batch.leftIn _ _ = c at hcalled hdirectory
  obtain ⟨saved, hsaved, -, -, hdisk⟩ := c.exists_returns_save {} {}
  have hreload : ∃ c', (Logged.outcome (Cache.load { directory } saved.disk).run).1 = .ok c' := by
    rw [(Cache.gives_load _ _).outcome]
    rw [Cache.path, hdirectory] at hdisk
    rcases hdisk with hdisk | ⟨hmade, e, hdisk⟩ | ⟨made, bytes, hdisk, -⟩
    · rw [hdisk]
      exact ⟨_, rfl⟩
    · obtain ⟨disk, hwrite⟩ := exists_write_made saved.disk hmade
      rw [hdisk] at hwrite
      cases hwrite
    · exact ⟨_, Cache.loaded_of_read (FileSystem.read_write hdisk)⟩
  obtain ⟨c', hreload⟩ := hreload
  exact ⟨saved.disk, c', ((hcalled.tail (.save hsaved.outcome)).tail .finish).tail
    (.start hreload)⟩

theorem not_exists_unitTooDeep (c : Cache) (units : List SourceUnit) :
    ¬ ∃ u ∈ [unit], Batch.UnitTooDeep {} (Batch.worked {} (analysisOutcome parse) {} (some c) units)
      {} (some c) u := by
  rintro ⟨u, hu, -, -, records, hrecords, hdeep⟩
  obtain rfl := List.mem_singleton.1 hu
  obtain ⟨found, hfound, hdepth⟩ := exists_records
  rw [← analysisOf_of_worked hrecords, languageFor_unit] at hdeep
  rw [← analysisOf_of_eq_ok hfound] at hdepth
  exact absurd (Nat.lt_of_lt_of_le hdeep hdepth) (by decide)

/-- Arrow functions, each of which is all that is in the one around it. -/
def arrows : Nat → SyntaxNode
  | 0 => { kind := "arrow_function", start := 0, stop := 15 }
  | n + 1 => { kind := "arrow_function", start := 0, stop := 15, children := [arrows n] }

theorem namedChildren_arrows (n : Nat) : (arrows (n + 1)).namedChildren = [arrows n] := by
  have hnamed : (arrows n).named = true := by cases n <;> rfl
  simp [SyntaxNode.namedChildren, arrows, hnamed]

theorem callees_arrows (n : Nat) : (arrows n).preorder.filterMap bareCallee = [] := by
  induction n with
  | zero => simp [SyntaxNode.preorder_eq, SyntaxNode.namedChildren, arrows, bareCallee]
  | succ n ih =>
    rw [SyntaxNode.preorder_eq, namedChildren_arrows, List.flatMap_singleton,
      List.filterMap_cons_none rfl, ih]

theorem record_arrows (ancestors : List SyntaxNode) (n : Nat) :
    record .javaScript (.ofText content) ancestors (arrows n) = .ok
      { name := anonymous, lines := lineRange (.ofText content) 0 15, sourceText := content } := by
  have hslice : (SourceText.ofText content).slice 0 15 = .ok content := by decide +kernel
  have hcalls : calls (.ofText content) (arrows n) = .ok ∅ := by
    rw [calls, callees_arrows]
    rfl
  refine (record_eq_ok_iff ..).2 ?_
  cases n with
  | zero => exact ⟨rfl, rfl, rfl, rfl, hslice, rfl, hcalls⟩
  | succ n =>
    have hfield : (arrows n).field = none := by cases n <;> rfl
    have hparameters : parameters (.ofText content) (arrows (n + 1)) = .ok [] := by
      simp [parameters, SyntaxNode.childWithField, arrows, hfield, pure, Except.pure]
    have hreturns : returnType (.ofText content) (arrows (n + 1)) = .ok voidType := by
      simp [returnType, SyntaxNode.childWithField, arrows, hfield, pure, Except.pure]
    exact ⟨rfl, hparameters, hreturns, rfl, hslice, rfl, hcalls⟩

theorem exists_forest_arrows (ancestors : List SyntaxNode) (n : Nat) :
    ∃ r, forest .javaScript (.ofText content) [⟨ancestors, arrows n⟩] = .ok [r] ∧
      r.depth = n + 1 := by
  have hnil : forest .javaScript (.ofText content) [] = .ok [] := by
    rw [forest]
    rfl
  induction n generalizing ancestors with
  | zero =>
    have hchildren : forest .javaScript (.ofText content) (Site.children ⟨ancestors, arrows 0⟩) =
        .ok [] := hnil
    rw [forest, if_pos (by rfl), record_arrows, hchildren, hnil]
    exact ⟨_, rfl, rfl⟩
  | succ n ih =>
    obtain ⟨r, hr, hdepth⟩ := ih (arrows (n + 1) :: ancestors)
    have hchildren : Site.children ⟨ancestors, arrows (n + 1)⟩ =
        [⟨arrows (n + 1) :: ancestors, arrows n⟩] := by
      rw [Site.children, namedChildren_arrows]
      rfl
    rw [forest, if_pos (by rfl), record_arrows, hchildren, hr, hnil]
    refine ⟨_, rfl, ?_⟩
    rw [FunctionRecord.depth_eq]
    change FunctionRecord.depthAll [r] + 1 = _
    rw [FunctionRecord.depthAll_cons, FunctionRecord.depthAll_nil, hdepth, Nat.max_zero]

/-- Takes every source for 256 arrow functions. -/
def deepParse : TreeParser := { tree := fun _ _ => some (arrows 255, false) }

theorem exists_deep_records : ∃ records,
    analysisOutcome deepParse content "javascript" = .ok records ∧
      FunctionRecord.depthAll records = 256 := by
  obtain ⟨r, hr, hdepth⟩ := exists_forest_arrows [] 255
  refine ⟨[r], ?_, ?_⟩
  · rw [← functions_eq_forest] at hr
    exact analysisOutcome_of_parse (l := .javaScript) (by decide +kernel) rfl hr
  · rw [FunctionRecord.depthAll_cons, hdepth]
    rfl

end CacheState.Sample

end FunctionInventory
