import FunctionInventory.Proofs.BatchesInPlace
import FunctionInventory.Proofs.DurableCaches

/-!
# What batches do to their cache

A batch stores the analyses that succeeded, under the keys of their units, and touches nothing
else, so that a second batch has to analyze the units that failed and no others. A batch that
fails leaves its cache as it was, unless it fails at a result that is nested too deep to be stored:
then the results of the units before are stored.
-/
namespace FunctionInventory.Batch

open Logged OnCache

section

variable {machine : Machine} {limits : Limits}
  {analysis : Text → Text → Except AnalysisError (List FunctionRecord)} {o : Options}
  {c c' : Cache} {units : List SourceUnit} {jobs : List Job}

/-- The units of a batch are all in one language, or each is in a supported one. -/
theorem languageFor_cases (o : Options) :
    (∃ l, ∀ u, languageFor o u = l) ∨ ∀ u, IsSupported (languageFor o u) := by
  unfold languageFor
  split
  · next l _ =>
    split
    · exact .inr fun u => isSupported_name _
    · exact .inl ⟨l, fun _ => rfl⟩
  · exact .inr fun u => isSupported_name _

/-- No two sources of a batch have the same bytes for their keys. -/
theorem source_eq_of_keyBytes_eq {u v : SourceUnit}
    (h : keyBytes u.content (languageFor o u) = keyBytes v.content (languageFor o v)) :
    u.content = v.content ∧ languageFor o u = languageFor o v := by
  rcases languageFor_cases o with ⟨l, hl⟩ | hsupported
  · rw [hl u, hl v, keyBytes, keyBytes, List.append_cancel_left_eq, List.cons.injEq] at h
    exact ⟨Text.encode_injective h.2, (hl u).trans (hl v).symm⟩
  · exact keyBytes_inj (hsupported u) (hsupported v) h

/-- The digests of the sources of a batch do not collide. -/
def KeysDistinct (o : Options) (units : List SourceUnit) : Prop :=
  Set.InjOn Sha256.digest {bytes | ∃ u ∈ units, bytes = keyBytes u.content (languageFor o u)}

theorem keysDistinct_iff : KeysDistinct o units ↔ ∀ u ∈ units, ∀ v ∈ units,
    Sha256.digest (keyBytes u.content (languageFor o u)) =
        Sha256.digest (keyBytes v.content (languageFor o v)) →
      keyBytes u.content (languageFor o u) = keyBytes v.content (languageFor o v) := by
  constructor
  · intro h u hu v hv hdigest
    exact h ⟨u, hu, rfl⟩ ⟨v, hv, rfl⟩ hdigest
  · rintro h _ ⟨u, hu, rfl⟩ _ ⟨v, hv, rfl⟩ hdigest
    exact h u hu v hv hdigest

theorem KeysDistinct.source_eq (h : KeysDistinct o units) {u v : SourceUnit} (hu : u ∈ units)
    (hv : v ∈ units)
    (hkey : keyOf u.content (languageFor o u) = keyOf v.content (languageFor o v)) :
    u.content = v.content ∧ languageFor o u = languageFor o v := by
  have hdigest := hexText_injective (ofString_injective hkey)
  exact source_eq_of_keyBytes_eq (keysDistinct_iff.1 h u hu v hv hdigest)

/-- Units with one key have one entry. -/
theorem KeysDistinct.cachedRecords_eq (h : KeysDistinct o units) (limits : Limits) (c : Cache)
    {u v : SourceUnit} (hu : u ∈ units) (hv : v ∈ units)
    (hkey : keyOf u.content (languageFor o u) = keyOf v.content (languageFor o v)) :
    cachedRecords limits o (some c) u = cachedRecords limits o (some c) v := by
  obtain ⟨hcontent, hlanguage⟩ := h.source_eq hu hv hkey
  rw [cachedRecords, cachedRecords, hcontent, hlanguage]

/-- Units with one key have the same result, but for its path. -/
theorem KeysDistinct.result_eq (h : KeysDistinct o units) {u v : SourceUnit} (hu : u ∈ units)
    (hv : v ∈ units)
    (hkey : keyOf u.content (languageFor o u) = keyOf v.content (languageFor o v)) :
    (resultFor limits analysis o (some c) u).functions =
        (resultFor limits analysis o (some c) v).functions ∧
      (resultFor limits analysis o (some c) u).errors =
        (resultFor limits analysis o (some c) v).errors := by
  obtain ⟨hcontent, hlanguage⟩ := h.source_eq hu hv hkey
  rw [resultFor, resultFor, h.cachedRecords_eq limits c hu hv hkey, hcontent, hlanguage]
  split
  · exact ⟨rfl, rfl⟩
  · cases analysis v.content (languageFor o v) <;> exact ⟨rfl, rfl⟩

/-- What storing a job puts into a cache. -/
def Job.put? (j : Job) : Option Cache.Put :=
  match j.result with
  | some f => if f.errors.isEmpty then some ⟨j.unit.content, j.language, f.functions⟩ else none
  | none => none

def putsAt (jobs : List Job) (places : List Nat) : List Cache.Put :=
  places.filterMap fun i => jobs[i]?.bind Job.put?

theorem eq_afterPuts_of_storeAt {i : Nat} (h : storeAt limits jobs c i = .ok c') :
    c' = c.afterPuts limits (putsAt jobs [i]) := by
  unfold storeAt at h
  unfold putsAt
  rw [List.filterMap_cons, List.filterMap_nil]
  cases hj : jobs[i]? with
  | none =>
    rw [hj] at h
    cases h
    rfl
  | some j =>
    obtain ⟨u, language, result⟩ := j
    rw [hj] at h
    cases result with
    | none =>
      cases h
      rfl
    | some f =>
      dsimp only at h
      by_cases herrors : f.errors.isEmpty
      · rw [if_pos herrors, mapError_eq_ok_iff] at h
        simp only [Option.bind_some, Job.put?, herrors, if_true]
        simp [Cache.afterPuts, Cache.afterPut, h]
      · rw [if_neg herrors] at h
        cases h
        simp [Job.put?, herrors, Cache.afterPuts]

/-- Storing puts the results of the jobs at the given places into the cache, in their order. -/
theorem eq_afterPuts_of_store {places : List Nat} (h : store limits jobs places c = .ok c') :
    c' = c.afterPuts limits (putsAt jobs places) := by
  induction places generalizing c with
  | nil =>
    cases h
    rfl
  | cons i places ih =>
    rw [store, List.foldlM_cons] at h
    obtain ⟨c₁, hfirst, hrest⟩ := bind_eq_ok_iff.1 h
    have hputs : putsAt jobs (i :: places) = putsAt jobs [i] ++ putsAt jobs places :=
      List.filterMap_append (l := [i])
    rw [ih hrest, eq_afterPuts_of_storeAt hfirst, hputs, Cache.afterPuts, Cache.afterPuts,
      Cache.afterPuts, List.foldl_append]

/-- The results that a batch stores: those without errors, of units that were not cached. -/
def storedResults (limits : Limits) (o : Options) (c : Cache) (units : List SourceUnit)
    (results : List FileFunctions) : List (SourceUnit × FileFunctions) :=
  (units.zip results).filter fun (u, f) => isMissed limits o (some c) u && f.errors.isEmpty

theorem mem_zip_results {result : SourceUnit → FileFunctions} {u : SourceUnit}
    {f : FileFunctions} : (u, f) ∈ units.zip (units.map result) ↔ u ∈ units ∧ result u = f := by
  rw [← List.map_prod_left_eq_zip, List.mem_map]
  constructor
  · rintro ⟨v, hv, heq⟩
    cases heq
    exact ⟨hv, rfl⟩
  · rintro ⟨hu, rfl⟩
    exact ⟨u, hu, rfl⟩

theorem mem_storedResults {result : SourceUnit → FileFunctions} {u : SourceUnit}
    {f : FileFunctions} : (u, f) ∈ storedResults limits o c units (units.map result) ↔
      (u ∈ units ∧ result u = f) ∧ cachedRecords limits o (some c) u = .ok none ∧
        f.errors = [] := by
  rw [storedResults, List.mem_filter, mem_zip_results, Bool.and_eq_true, isMissed_iff,
    List.isEmpty_iff]

theorem put?_inPool {u : SourceUnit} (missed : cachedRecords limits o (some c) u = .ok none) :
    (Job.inPool analysis ⟨u, languageFor o u, none⟩).put? =
      if (resultFor limits analysis o (some c) u).errors.isEmpty then
        some ⟨u.content, languageFor o u, (resultFor limits analysis o (some c) u).functions⟩
      else none := by
  obtain ⟨hof, -⟩ := jobOf_eq_pending_iff.2 ⟨missed, rfl⟩
  rw [Job.put?, result_inPool hof]
  rfl

/-- What is put into the cache are the stored results. -/
theorem mem_putsAt_pending (hjobs : units.mapM (jobOf limits o (some c)) = .ok jobs)
    {p : Cache.Put} :
    p ∈ putsAt (jobs.map (Job.inPool analysis)) (pending jobs) ↔
      ∃ u f, (u, f) ∈
          storedResults limits o c units (units.map (resultFor limits analysis o (some c))) ∧
        p = ⟨u.content, languageFor o u, f.functions⟩ := by
  have hput : ∀ (i : Nat) (u : SourceUnit), jobs[i]? = some ⟨u, languageFor o u, none⟩ →
      cachedRecords limits o (some c) u = .ok none →
      ((jobs.map (Job.inPool analysis))[i]?.bind Job.put? = some p ↔
        (resultFor limits analysis o (some c) u).errors = [] ∧
          p = ⟨u.content, languageFor o u,
            (resultFor limits analysis o (some c) u).functions⟩) := by
    intro i u hi missed
    rw [List.getElem?_map, hi, Option.map_some, Option.bind_some, put?_inPool missed,
      Option.ite_none_right_eq_some, List.isEmpty_iff, Option.some.injEq]
    exact and_congr_right fun _ => eq_comm
  simp only [putsAt, List.mem_filterMap, mem_storedResults]
  constructor
  · rintro ⟨i, hi, hp⟩
    obtain ⟨j, hj, hnone⟩ := mem_pending.1 hi
    obtain ⟨u, hu, hof⟩ := (mem_of_mapM_eq_ok hjobs j).1 (List.mem_of_getElem? hj)
    obtain ⟨missed, rfl⟩ := jobOf_eq_pending_iff.1 ⟨hof, hnone⟩
    obtain ⟨herrors, rfl⟩ := (hput i u hj missed).1 hp
    exact ⟨u, _, ⟨⟨hu, rfl⟩, missed, herrors⟩, rfl⟩
  · rintro ⟨u, _, ⟨⟨hu, rfl⟩, missed, herrors⟩, rfl⟩
    obtain ⟨hof, hnone⟩ := jobOf_eq_pending_iff.2 ⟨missed, rfl⟩
    obtain ⟨i, hi⟩ := List.mem_iff_getElem?.1 ((mem_of_mapM_eq_ok hjobs _).2 ⟨u, hu, hof⟩)
    exact ⟨i, mem_pending.2 ⟨_, hi, hnone⟩, (hput i u hi missed).2 ⟨herrors, rfl⟩⟩

/-- What a batch with the given results does to a cache. -/
structure Effects (limits : Limits) (o : Options) (units : List SourceUnit)
    (results : List FileFunctions) (c c' : Cache) : Prop where
  directory : c'.directory = c.directory
  /-- Each stored result is the entry of its unit. -/
  stored : ∀ u f, (u, f) ∈ storedResults limits o c units results →
    Value.find? (.text (keyOf u.content (languageFor o u))) c'.entries =
      some (.list (FunctionRecord.toValues .camelCase f.functions))
  /-- Nothing has changed but the entries of stored results. -/
  kept : ∀ key, (∀ u f, (u, f) ∈ storedResults limits o c units results →
      key ≠ .text (keyOf u.content (languageFor o u))) →
    Value.find? key c'.entries = Value.find? key c.entries
  /-- A unit whose result has errors keeps the entry it had, if there was one. -/
  failed : ∀ u f, (u, f) ∈ units.zip results → f.errors ≠ [] →
    Value.find? (.text (keyOf u.content (languageFor o u))) c'.entries =
      Value.find? (.text (keyOf u.content (languageFor o u))) c.entries
  dirty : c'.dirty = true ↔ c.dirty = true ∨ storedResults limits o c units results ≠ []

/-- The puts are those of the stored results, each under the key of its unit. -/
structure PutsStored (limits : Limits) (o : Options) (units : List SourceUnit)
    (results : List FileFunctions) (c : Cache) (puts : List Cache.Put) : Prop where
  mem_iff : ∀ p, p ∈ puts ↔ ∃ u f, (u, f) ∈ storedResults limits o c units results ∧
    p = ⟨u.content, languageFor o u, f.functions⟩
  key : ∀ u f, (u, f) ∈ storedResults limits o c units results →
    contentKey u.content (languageFor o u) = .ok (keyOf u.content (languageFor o u))
  shallow : ∀ u f, (u, f) ∈ storedResults limits o c units results →
    FunctionRecord.depthAll f.functions ≤ limits.data

theorem putsStored_pending (hjobs : units.mapM (jobOf limits o (some c)) = .ok jobs)
    (hshallow : ¬ ∃ u ∈ units, UnitTooDeep limits analysis o (some c) u) :
    PutsStored limits o units (units.map (resultFor limits analysis o (some c))) c
      (putsAt (jobs.map (Job.inPool analysis)) (pending jobs)) := by
  refine ⟨fun p => mem_putsAt_pending hjobs, fun u f hf => ?_, fun u f hf => ?_⟩
  · obtain ⟨⟨hu, -⟩, -⟩ := mem_storedResults.1 hf
    obtain ⟨j, hj⟩ := exists_ok_of_mem hjobs hu
    obtain ⟨key, hkey⟩ := exists_contentKey hj
    rw [hkey, (contentKey_eq_ok_iff.1 hkey).2]
  · obtain ⟨⟨hu, rfl⟩, missed, errors⟩ := mem_storedResults.1 hf
    by_contra hdeep
    have hunstorable : Unstorable limits o (some c) u (resultFor limits analysis o (some c) u) :=
      ⟨rfl, missed, errors, Nat.lt_of_not_le hdeep⟩
    exact hshallow ⟨u, hu, unstorable_resultFor_iff.1 hunstorable⟩

namespace PutsStored

variable {results : List FileFunctions} {puts : List Cache.Put}

theorem key?_eq (h : PutsStored limits o units results c puts) {u : SourceUnit} {f : FileFunctions}
    (hf : (u, f) ∈ storedResults limits o c units results) :
    Cache.Put.key? limits ⟨u.content, languageFor o u, f.functions⟩ =
      some (keyOf u.content (languageFor o u)) :=
  Cache.Put.key?_eq_some_iff.2 ⟨h.shallow u f hf, h.key u f hf⟩

theorem kept (h : PutsStored limits o units results c puts) {key : Value}
    (hne : ∀ u f, (u, f) ∈ storedResults limits o c units results →
      key ≠ .text (keyOf u.content (languageFor o u))) :
    Value.find? key (c.afterPuts limits puts).entries = Value.find? key c.entries := by
  refine Cache.find?_afterPuts_of_ne (fun p hp t ht => ?_) c
  obtain ⟨u, f, hf, rfl⟩ := (h.mem_iff p).1 hp
  rw [h.key?_eq hf, Option.some.injEq] at ht
  rw [← ht]
  exact hne u f hf

/-- Where stored results with one key agree, each is found under its own. -/
theorem stored (h : PutsStored limits o units results c puts) {u : SourceUnit} {f : FileFunctions}
    (hf : (u, f) ∈ storedResults limits o c units results)
    (agree : ∀ v g, (v, g) ∈ storedResults limits o c units results →
      keyOf v.content (languageFor o v) = keyOf u.content (languageFor o u) →
      g.functions = f.functions) :
    Value.find? (.text (keyOf u.content (languageFor o u))) (c.afterPuts limits puts).entries =
      some (.list (FunctionRecord.toValues .camelCase f.functions)) := by
  have hlast : Cache.lastUnder limits puts (keyOf u.content (languageFor o u)) =
      some f.functions := by
    refine Cache.lastUnder_eq_some ((h.mem_iff _).2 ⟨u, f, hf, rfl⟩) (h.key?_eq hf) ?_
    intro q hq hkey
    obtain ⟨v, g, hg, rfl⟩ := (h.mem_iff q).1 hq
    rw [h.key?_eq hg, Option.some.injEq] at hkey
    exact agree v g hg hkey
  rw [Cache.find?_afterPuts, hlast]
  rfl

theorem dirty_iff (h : PutsStored limits o units results c puts) :
    (c.afterPuts limits puts).dirty = true ↔
      c.dirty = true ∨ storedResults limits o c units results ≠ [] := by
  rw [Cache.dirty_afterPuts]
  apply or_congr_right
  constructor
  · rintro ⟨p, hp, -⟩
    obtain ⟨u, f, hf, -⟩ := (h.mem_iff p).1 hp
    exact List.ne_nil_of_mem hf
  · intro hne
    obtain ⟨⟨u, f⟩, hf⟩ := List.exists_mem_of_ne_nil _ hne
    exact ⟨_, (h.mem_iff _).2 ⟨u, f, hf, rfl⟩, by simp [h.key?_eq hf]⟩

end PutsStored

/-- Where storing comes to an end, no result was nested too deep for it. -/
theorem not_deepAt_of_store {places : List Nat}
    (hkeys : ∀ j ∈ jobs, ∃ key, contentKey j.unit.content j.language = .ok key)
    (hstore : store limits jobs places c = .ok c') : ∀ i ∈ places, ¬ DeepAt limits jobs i := by
  rcases store_cases hkeys places c with
    ⟨c'', -, hshallow⟩ | ⟨before, i, after, left, -, -, -, herror⟩
  · exact hshallow
  · rw [herror] at hstore
    cases hstore

theorem not_exists_unitTooDeep_of_store (hjobs : units.mapM (jobOf limits o (some c)) = .ok jobs)
    (hstore : store limits (jobs.map (Job.inPool analysis)) (pending jobs) c = .ok c') :
    ¬ ∃ u ∈ units, UnitTooDeep limits analysis o (some c) u := by
  rintro ⟨u, hu, hdeep⟩
  obtain ⟨i, hi⟩ := List.mem_iff_getElem?.1 hu
  obtain ⟨hpending, hplace⟩ := (deepAt_inPool_iff hjobs hi).2 hdeep
  exact not_deepAt_of_store (exists_contentKey_inPool _ hjobs) hstore i hpending hplace

/-- Storing the results of the jobs that were pending is all that a batch does to its cache. -/
theorem effects_of_store (distinct : KeysDistinct o units)
    (hjobs : units.mapM (jobOf limits o (some c)) = .ok jobs)
    (hstore : store limits (jobs.map (Job.inPool analysis)) (pending jobs) c = .ok c') :
    Effects limits o units (units.map (resultFor limits analysis o (some c))) c c' := by
  have hshallow := not_exists_unitTooDeep_of_store hjobs hstore
  obtain rfl := eq_afterPuts_of_store hstore
  have hputs : PutsStored limits o units (units.map (resultFor limits analysis o (some c))) c
      (putsAt (jobs.map (Job.inPool analysis)) (pending jobs)) := putsStored_pending hjobs hshallow
  refine ⟨Cache.directory_afterPuts .., ?_, fun key hne => hputs.kept hne, ?_, hputs.dirty_iff⟩
  · intro u f hf
    refine hputs.stored hf fun v g hg hkey => ?_
    obtain ⟨⟨hu, rfl⟩, -⟩ := mem_storedResults.1 hf
    obtain ⟨⟨hv, rfl⟩, -⟩ := mem_storedResults.1 hg
    exact (distinct.result_eq hv hu hkey).1
  · intro u f hf herrors
    obtain ⟨hu, rfl⟩ := mem_zip_results.1 hf
    refine hputs.kept fun v g hg heq => herrors ?_
    obtain ⟨⟨hv, rfl⟩, -, hnone⟩ := mem_storedResults.1 hg
    rw [(distinct.result_eq hu hv (Value.text.inj heq)).2, hnone]

/-- Results have errors only where units are analyzed, and cannot be. -/
theorem cachedRecords_of_errors {cache : Option Cache} {u : SourceUnit}
    (found : ∃ records, cachedRecords limits o cache u = .ok records)
    (herrors : (resultFor limits analysis o cache u).errors ≠ []) :
    cachedRecords limits o cache u = .ok none := by
  obtain ⟨records, hrecords⟩ := found
  rw [resultFor, hrecords] at herrors
  cases records with
  | some records => simp [resultOf] at herrors
  | none => exact hrecords

theorem cachedRecords_eq {u : SourceUnit} (limits : Limits) (c : Cache)
    (hkey : contentKey u.content (languageFor o u) = .ok (keyOf u.content (languageFor o u))) :
    cachedRecords limits o (some c) u =
      .ok ((Value.find? (.text (keyOf u.content (languageFor o u))) c.entries).bind
        (Cache.recordsOf? limits)) := by
  rw [cachedRecords, Cache.found, hkey]
  rfl

/-- After a batch, a unit is cached unless its result had errors. -/
theorem Effects.exists_cachedRecords
    (h : Effects limits o units (units.map (resultFor limits analysis o (some c))) c c')
    (distinct : KeysDistinct o units)
    (hshallow : ¬ ∃ u ∈ units, UnitTooDeep limits analysis o (some c) u) {u : SourceUnit}
    (hu : u ∈ units) (found : ∃ records, cachedRecords limits o (some c) u = .ok records) :
    ∃ records, cachedRecords limits o (some c') u = .ok records ∧
      (records = none ↔ (resultFor limits analysis o (some c) u).errors ≠ []) := by
  have hkey : contentKey u.content (languageFor o u) =
      .ok (keyOf u.content (languageFor o u)) := by
    obtain ⟨records, hrecords⟩ := found
    obtain ⟨key, hkey, -⟩ := map_eq_ok_iff.1 hrecords
    rw [hkey, (contentKey_eq_ok_iff.1 hkey).2]
  have hbefore := cachedRecords_eq limits c hkey
  refine ⟨_, cachedRecords_eq limits c' hkey, ?_⟩
  by_cases herrors : (resultFor limits analysis o (some c) u).errors = []
  · by_cases missed : cachedRecords limits o (some c) u = .ok none
    · have hstored := h.stored u _ (mem_storedResults.2 ⟨⟨hu, rfl⟩, missed, herrors⟩)
      have hdepth : FunctionRecord.depthAll (resultFor limits analysis o (some c) u).functions ≤
          limits.data := by
        by_contra hdeep
        exact hshallow ⟨u, hu, unstorable_resultFor_iff.1
          ⟨rfl, missed, herrors, Nat.lt_of_not_le hdeep⟩⟩
      have hrecords := Cache.recordsOf?_toValues_eq_some_iff.2 ⟨rfl, hdepth⟩
      simp [hstored, herrors, hrecords]
    · have hkept := h.kept (.text (keyOf u.content (languageFor o u))) fun v f hf heq => by
        obtain ⟨⟨hv, -⟩, hmissed, -⟩ := mem_storedResults.1 hf
        have hsame := distinct.cachedRecords_eq limits c hu hv (Value.text.inj heq)
        exact missed (hsame.trans hmissed)
      rw [hkept]
      rw [hbefore, Except.ok.injEq] at missed
      simp [missed, herrors]
  · have hmissed := cachedRecords_of_errors found herrors
    rw [h.failed u _ (mem_zip_results.2 ⟨hu, rfl⟩) herrors]
    rw [hbefore, Except.ok.injEq] at hmissed
    simp [hmissed, herrors]

/-- The next batch with the same units analyzes those whose results had errors. -/
theorem Effects.exists_pending
    (h : Effects limits o units (units.map (resultFor limits analysis o (some c))) c c')
    (distinct : KeysDistinct o units)
    (hshallow : ¬ ∃ u ∈ units, UnitTooDeep limits analysis o (some c) u)
    (hjobs : units.mapM (jobOf limits o (some c)) = .ok jobs) :
    ∃ jobs', units.mapM (jobOf limits o (some c')) = .ok jobs' ∧ ∀ i, i ∈ pending jobs' ↔
      ∃ f, (units.map (resultFor limits analysis o (some c)))[i]? = some f ∧ f.errors ≠ [] := by
  have hfound := exists_jobs_iff.1 ⟨jobs, hjobs⟩
  have hagain := fun u hu => h.exists_cachedRecords distinct hshallow hu (hfound u hu)
  obtain ⟨jobs', hjobs'⟩ := exists_jobs_iff.2 fun u hu => (hagain u hu).imp fun _ h => h.1
  refine ⟨jobs', hjobs', fun i => ?_⟩
  rw [mem_pending_iff_missed (mapM_eq_ok_iff.1 hjobs'), List.getElem?_map]
  cases hi : units[i]? with
  | none => simp
  | some u =>
    obtain ⟨records, hrecords, herrors⟩ := hagain u (List.mem_of_getElem? hi)
    simp [hrecords, herrors]

/-- The places that are pending among the first jobs are those before the next one. -/
theorem pending_take {before after : List Nat} {i : Nat}
    (h : pending jobs = before ++ i :: after) : pending (jobs.take i) = before := by
  have hsorted (jobs : List Job) : (pending jobs).Pairwise (· < ·) :=
    List.pairwise_lt_range.filter _
  have hall := hsorted jobs
  rw [h, List.pairwise_append] at hall
  obtain ⟨hbefore, hrest, hbelow⟩ := hall
  refine (hsorted (jobs.take i)).eq_of_mem_iff hbefore fun k => ?_
  have hmem : k ∈ pending (jobs.take i) ↔ k < i ∧ k ∈ pending jobs := by
    rw [mem_pending, mem_pending, List.getElem?_take]
    split <;> simp_all
  rw [hmem, h, List.mem_append, List.mem_cons]
  constructor
  · rintro ⟨hk, hk' | rfl | hk'⟩
    · exact hk'
    · exact absurd hk (Nat.lt_irrefl k)
    · exact absurd hk (Nat.lt_asymm ((List.pairwise_cons.1 hrest).1 k hk'))
  · intro hk
    exact ⟨hbelow k hk i List.mem_cons_self, .inl hk⟩

theorem lt_of_mem_pending_take {i k : Nat} (h : k ∈ pending (jobs.take i)) : k < i := by
  obtain ⟨j, hj, -⟩ := mem_pending.1 h
  by_contra hge
  rw [List.getElem?_take_eq_none (Nat.le_of_not_lt hge)] at hj
  cases hj

/-- Storing at the first places has to do with the first jobs only. -/
theorem store_take {places : List Nat} {i : Nat} (h : ∀ k ∈ places, k < i) (c : Cache) :
    store limits (jobs.take i) places c = store limits jobs places c := by
  have hstep (c : Cache) {k : Nat} (hk : k < i) :
      storeAt limits (jobs.take i) c k = storeAt limits jobs c k := by
    rw [storeAt, storeAt, List.getElem?_take_of_lt hk]
  induction places generalizing c with
  | nil => rfl
  | cons k places ih =>
    obtain ⟨hk, hplaces⟩ := List.forall_mem_cons.1 h
    rw [store, store, List.foldlM_cons, List.foldlM_cons, hstep c hk]
    exact congrArg _ (funext fun c₁ => ih hplaces c₁)

/-- The unit is the first one whose result is nested too deep to be stored. -/
structure IsFirstTooDeep (limits : Limits)
    (analysis : Text → Text → Except AnalysisError (List FunctionRecord)) (o : Options) (c : Cache)
    (units : List SourceUnit) (n : Nat) (u : SourceUnit) : Prop where
  place : units[n]? = some u
  deep : UnitTooDeep limits analysis o (some c) u
  first : ¬ ∃ v ∈ units.take n, UnitTooDeep limits analysis o (some c) v

/-- Where storing fails, it has stored the results of the units before. -/
theorem exists_isFirstTooDeep (distinct : KeysDistinct o units)
    (hjobs : units.mapM (jobOf limits o (some c)) = .ok jobs) {e : BatchError}
    (hstore : store limits (jobs.map (Job.inPool analysis)) (pending jobs) c = .error e) :
    ∃ n u left, e = .unstored (.nesting .data) left ∧ IsFirstTooDeep limits analysis o c units n u ∧
      Effects limits o (units.take n)
        ((units.take n).map (resultFor limits analysis o (some c))) c left := by
  rcases store_cases (exists_contentKey_inPool _ hjobs) (pending jobs) c with
    ⟨c', hstored, -⟩ | ⟨before, n, after, left, hplaces, hdeep, hbefore, herror⟩
  · rw [hstored] at hstore
    cases hstore
  · rw [herror] at hstore
    cases hstore
    have hpending : n ∈ pending jobs := by simp [hplaces]
    obtain ⟨u, hu, -⟩ := (mem_pending_iff_missed (mapM_eq_ok_iff.1 hjobs)).1 hpending
    have hfirst := pending_take hplaces
    have hlt : ∀ k ∈ before, k < n := fun k hk => lt_of_mem_pending_take (hfirst ▸ hk)
    have hjobs' : (units.take n).mapM (jobOf limits o (some c)) = .ok (jobs.take n) :=
      mapM_eq_ok_iff.2 (List.forall₂_take n (mapM_eq_ok_iff.1 hjobs))
    have hstore' : store limits ((jobs.take n).map (Job.inPool analysis))
        (pending (jobs.take n)) c = .ok left := by
      rw [hfirst, List.map_take, store_take hlt, hbefore]
    have hdistinct : KeysDistinct o (units.take n) := by
      refine distinct.mono ?_
      rintro _ ⟨v, hv, rfl⟩
      exact ⟨v, List.mem_of_mem_take hv, rfl⟩
    exact ⟨n, u, left, rfl, ⟨hu, (deepAt_inPool_iff hjobs hu).1 ⟨hpending, hdeep⟩,
      not_exists_unitTooDeep_of_store hjobs' hstore'⟩, effects_of_store hdistinct hjobs' hstore'⟩

/-- The ways for a batch to fail, and the cache that it leaves. With data that is no unit, a
language without bytes for its name, or an analysis that fails where units are analyzed in turn,
the cache is as before. With a result that is nested too deep to be stored, it has the results of
the units before. -/
inductive FailsWith (machine : Machine)
    (analysis : Text → Text → Except AnalysisError (List FunctionRecord)) (o : Options) (c : Cache)
    (values : List Value) : BatchError → Cache → Prop
  | units {e : BatchError} (h : checkUnits values = .error e) :
      FailsWith machine analysis o c values e c
  | language {units : List SourceUnit} {u : SourceUnit} (h : checkUnits values = .ok units)
      (hu : u ∈ units) (surrogate : Text.hasSurrogate (languageFor o u)) :
      FailsWith machine analysis o c values (.encoding .surrogate) c
  | analysis {units : List SourceUnit} {u : SourceUnit} {e : AnalysisError}
      (h : checkUnits values = .ok units) (inTurn : ¬ UsesPool machine o (some c) units)
      (hu : u ∈ units) (missed : cachedRecords machine.limits o (some c) u = .ok none)
      (fails : analysis u.content (languageFor o u) = .error e) :
      FailsWith machine analysis o c values (.analysis e) c
  | nesting {units : List SourceUnit} {n : Nat} {u : SourceUnit} {left : Cache}
      (h : checkUnits values = .ok units)
      (deep : IsFirstTooDeep machine.limits
        (worked machine analysis o (some c) units) o c units n u)
      (stored : Effects machine.limits o (units.take n) ((units.take n).map
        (resultFor machine.limits (worked machine analysis o (some c) units) o (some c))) c left) :
      FailsWith machine analysis o c values (.unstored (.nesting .data) left) left

theorem hasSurrogate_of_jobOf {u : SourceUnit} {e : EncodingError}
    (h : jobOf limits o (some c) u = .error e) : Text.hasSurrogate (languageFor o u) = true := by
  by_contra hplain
  have hkey : contentKey u.content (languageFor o u) = .ok (keyOf u.content (languageFor o u)) :=
    contentKey_eq_ok_iff.2 ⟨by simpa using hplain, rfl⟩
  rw [jobOf, cachedRecords, Cache.found, hkey] at h
  cases h

theorem analysis_of_inTurn_eq_error {j : Job} {e : AnalysisError}
    (h : j.inTurn analysis = .error e) :
    j.result = none ∧ analysis j.unit.content j.language = .error e := by
  unfold Job.inTurn at h
  split at h
  · cases h
  · next hnone => exact ⟨hnone, map_eq_error_iff.1 h⟩

/-- How a batch of units ends, with the cache that it leaves. -/
theorem failsWith_or_effects (machine : Machine)
    (analysis : Text → Text → Except AnalysisError (List FunctionRecord)) (c : Cache)
    {values : List Value} (hunits : checkUnits values = .ok units)
    (distinct : KeysDistinct o units) :
    (∃ e, ran machine analysis o (some c) units = .error e ∧
      FailsWith machine analysis o c values e (e.left c)) ∨
    ∃ jobs c', units.mapM (jobOf machine.limits o (some c)) = .ok jobs ∧
      (¬ ∃ u ∈ units, UnitTooDeep machine.limits (worked machine analysis o (some c) units) o
        (some c) u) ∧
      ran machine analysis o (some c) units = .ok (units.map
        (resultFor machine.limits (worked machine analysis o (some c) units) o (some c)), some c') ∧
      Effects machine.limits o units (units.map
        (resultFor machine.limits (worked machine analysis o (some c) units) o (some c))) c c' := by
  cases hjobs : units.mapM (jobOf machine.limits o (some c)) with
  | error e =>
    obtain ⟨u, hu, hu'⟩ := exists_mem_of_mapM_eq_error hjobs
    cases e
    exact .inl ⟨_, ran_of_lookUp_error hjobs, .language hunits hu (hasSurrogate_of_jobOf hu')⟩
  | ok jobs =>
    by_cases completes : UsesPool machine o (some c) units ∨
        ¬ ∃ u ∈ units, UnitFails machine.limits analysis o (some c) u
    · rw [ran_of_completes analysis hjobs completes, returned,
        filterMap_result (map_result_inPool (mapM_eq_ok_iff.1 hjobs))]
      cases hstore : store machine.limits
          (jobs.map (Job.inPool (worked machine analysis o (some c) units))) (pending jobs) c with
      | error e =>
        obtain ⟨n, u, left, rfl, hfirst, hstored⟩ := exists_isFirstTooDeep distinct hjobs hstore
        exact .inl ⟨_, rfl, .nesting hunits hfirst hstored⟩
      | ok c' =>
        exact .inr ⟨jobs, c', rfl, not_exists_unitTooDeep_of_store hjobs hstore, rfl,
          effects_of_store distinct hjobs hstore⟩
    · rw [not_or, not_not] at completes
      obtain ⟨inTurn, fails⟩ := completes
      obtain ⟨e, hturns, hran⟩ := ran_of_fails hjobs inTurn fails
      obtain ⟨j, hj, hturn⟩ := exists_mem_of_mapM_eq_error hturns
      obtain ⟨hnone, hanalysis⟩ := analysis_of_inTurn_eq_error hturn
      obtain ⟨u, hu, hof⟩ := (mem_of_mapM_eq_ok hjobs j).1 hj
      obtain ⟨missed, rfl⟩ := jobOf_eq_pending_iff.1 ⟨hof, hnone⟩
      exact .inl ⟨_, hran, .analysis hunits inTurn hu missed hanalysis⟩

end

namespace Sample

theorem eq_damaged_or_sound {u : SourceUnit} (hu : u ∈ units) : u = damaged ∨ u = sound := by
  rcases List.mem_cons.1 hu with rfl | hu
  · exact .inl rfl
  · exact .inr (List.eq_of_mem_replicate hu)

theorem digest_ne : Sha256.digest (keyBytes damaged.content (languageFor options damaged)) ≠
    Sha256.digest (keyBytes sound.content (languageFor options sound)) := by
  decide +kernel

theorem keysDistinct_of_subset {us : List SourceUnit} (h : us ⊆ units) :
    KeysDistinct options us := by
  rw [keysDistinct_iff]
  intro u hu v hv hdigest
  rcases eq_damaged_or_sound (h hu) with rfl | rfl <;>
    rcases eq_damaged_or_sound (h hv) with rfl | rfl
  · rfl
  · exact absurd hdigest digest_ne
  · exact absurd hdigest.symm digest_ne
  · rfl

theorem depthAll_of_handed {content language : Text} {records : List FunctionRecord}
    (h : handed machine analysis content language = .ok records) :
    FunctionRecord.depthAll records = 0 := by
  have hanalysis := (handed_eq_ok_iff.1 h).1
  unfold analysis at hanalysis
  split at hanalysis
  · cases hanalysis
  · cases hanalysis
    rfl

theorem not_failsWith_units (e : BatchError) (c' : Cache) :
    ¬ FailsWith machine analysis options emptyCache (units.map SourceUnit.dump) e c' := by
  have hunits := checkUnits_dump units
  have pooled : UsesPool machine options (some emptyCache) units := usesPool_units rfl
  intro h
  cases h with
  | units h =>
    rw [hunits] at h
    cases h
  | language h hu surrogate =>
    rw [hunits] at h
    cases h
    rcases eq_damaged_or_sound hu with rfl | rfl <;> exact absurd surrogate (by decide +kernel)
  | analysis h inTurn =>
    rw [hunits] at h
    cases h
    exact inTurn pooled
  | nesting h deep =>
    rw [hunits] at h
    cases h
    obtain ⟨-, -, records, hrecords, hdeep⟩ := deep.deep
    rw [worked, if_pos pooled] at hrecords
    rw [depthAll_of_handed hrecords] at hdeep
    exact absurd hdeep (Nat.not_lt_zero _)

/-- What `deepAnalyzer` finds. -/
def deepAnalysis : Text → Text → Except AnalysisError (List FunctionRecord) := fun content _ =>
  if content = damaged.content then .ok [.ofArrows 255] else .ok []

theorem gives_deepAnalyzer (content language : Text) :
    Gives (deepAnalyzer content language) (deepAnalysis content language) := by
  unfold deepAnalyzer deepAnalysis
  split <;> exact gives_pure _

theorem worked_pair : worked {} deepAnalysis options (some emptyCache) [sound, damaged] =
    deepAnalysis := by
  refine if_neg fun pooled => ?_
  have hfew := pooled.2.trans List.countP_le_length
  exact absurd hfew (by decide)

theorem unitTooDeep_damaged : UnitTooDeep {} deepAnalysis options (some emptyCache) damaged := by
  refine ⟨rfl, cachedRecords_damaged, [.ofArrows 255], rfl, ?_⟩
  simp

theorem not_unitTooDeep_sound :
    ¬ UnitTooDeep {} deepAnalysis options (some emptyCache) sound := by
  rintro ⟨-, -, records, hrecords, hdeep⟩
  cases hrecords
  exact absurd hdeep (Nat.not_lt_zero _)

/-- Of two units, the second one is too deep, so that the first one is what is stored. -/
theorem effects_of_failsWith_pair {e : BatchError} {c' : Cache}
    (h : FailsWith {} deepAnalysis options emptyCache ([sound, damaged].map SourceUnit.dump) e c') :
    Effects {} options [sound] [resultOf sound []] emptyCache c' := by
  have hunits := checkUnits_dump [sound, damaged]
  cases h with
  | units h =>
    rw [hunits] at h
    cases h
  | language h hu surrogate =>
    rw [hunits] at h
    cases h
    rcases List.mem_pair.1 hu with rfl | rfl <;> exact absurd surrogate (by decide +kernel)
  | analysis h inTurn hu missed fails =>
    rw [hunits] at h
    cases h
    unfold deepAnalysis at fails
    split at fails <;> cases fails
  | @nesting _ n _ _ h deep stored =>
    rw [hunits] at h
    cases h
    rw [worked_pair] at deep stored
    match n, deep.place with
    | 0, hplace =>
      cases hplace
      exact absurd deep.deep not_unitTooDeep_sound
    | 1, _ =>
      have hresult : resultFor {} deepAnalysis options (some emptyCache) sound =
          resultOf sound [] := resultFor_of_missed cachedRecords_sound
      change Effects {} options [sound]
        [resultFor {} deepAnalysis options (some emptyCache) sound] emptyCache c' at stored
      rwa [hresult] at stored

end Sample

end FunctionInventory.Batch
