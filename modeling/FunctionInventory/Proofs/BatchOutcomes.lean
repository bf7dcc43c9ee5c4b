import FunctionInventory.Proofs.Analyses
import FunctionInventory.Proofs.PoolResults

/-!
# Outcomes of batches

Where the outcome of an analysis depends on nothing but content and language, the outcome of a
batch is a function of its cache and its units. Analyzing in turn ends with the first failure, and
storing with the first result that is nested too deep; without either, a batch has the results of
all units, in their order.
-/
namespace FunctionInventory

open Logged

namespace Batch

section

variable {machine : Machine} {limits : Limits} {analyzer : Analyzer}
  {analysis : Text → Text → Except AnalysisError (List FunctionRecord)} {o : Options}
  {cache : Option Cache} {units : List SourceUnit} {jobs : List Job}

/-- The job after its turn. -/
def Job.inTurn (analysis : Text → Text → Except AnalysisError (List FunctionRecord)) (j : Job) :
    Except AnalysisError Job :=
  match j.result with
  | some _ => .ok j
  | none => (analysis j.unit.content j.language).map fun records =>
    { j with result := some (resultOf j.unit records) }

/-- The job with an entry, where it had no result. -/
def Job.inPool (analysis : Text → Text → Except AnalysisError (List FunctionRecord)) (j : Job) :
    Job :=
  match j.result with
  | some _ => j
  | none => j.settle (analysis j.unit.content j.language)

/-- What comes back of analyses from the workers of a machine. -/
def handed (machine : Machine)
    (analysis : Text → Text → Except AnalysisError (List FunctionRecord)) :
    Text → Text → Except AnalysisError (List FunctionRecord) :=
  fun content language => machine.handOver (analysis content language)

theorem handed_eq_ok_iff {content language : Text} {records : List FunctionRecord} :
    handed machine analysis content language = .ok records ↔
      analysis content language = .ok records ∧ machine.lost records = none := by
  unfold handed
  cases hanalysis : analysis content language with
  | error e => simp [Machine.handOver, bind, Except.bind]
  | ok found =>
    cases hlost : machine.lost found with
    | none =>
      rw [handOver_of_lost_eq_none hlost, Except.ok.injEq]
      exact ⟨fun h => ⟨h, h ▸ hlost⟩, fun h => h.1⟩
    | some message =>
      rw [handOver_of_lost_eq_some hlost]
      simp only [reduceCtorEq, Except.ok.injEq, false_iff, not_and]
      rintro rfl
      simp [hlost]

/-- The job has to be analyzed, and cannot be. -/
def Job.Fails (analysis : Text → Text → Except AnalysisError (List FunctionRecord)) (j : Job) :
    Prop :=
  j.result = none ∧ ∃ e, analysis j.unit.content j.language = .error e

theorem Job.inTurn_of_fails {j : Job} (h : j.Fails analysis) :
    ∃ e, j.inTurn analysis = .error e := by
  obtain ⟨hresult, e, he⟩ := h
  refine ⟨e, ?_⟩
  rw [inTurn, hresult, he]
  rfl

theorem Job.inTurn_of_not_fails {j : Job} (h : ¬ j.Fails analysis) :
    j.inTurn analysis = .ok (j.inPool analysis) := by
  unfold inTurn inPool
  cases hresult : j.result with
  | some f => rfl
  | none =>
    cases hanalysis : analysis j.unit.content j.language with
    | ok records => rfl
    | error e => exact absurd ⟨hresult, e, hanalysis⟩ h

/-- Where no analysis fails, all jobs have their entries after their turns. -/
theorem mapM_inTurn_eq_ok (h : ∀ j ∈ jobs, ¬ j.Fails analysis) :
    jobs.mapM (Job.inTurn analysis) = .ok (jobs.map (Job.inPool analysis)) := by
  rw [mapM_eq_ok_iff, List.forall₂_map_right_iff, List.forall₂_same]
  intro j hj
  exact Job.inTurn_of_not_fails (h j hj)

/-- Analyzing in turn ends with a failure as soon as there is one. -/
theorem mapM_inTurn_eq_error {j : Job} (hj : j ∈ jobs) (h : j.Fails analysis) :
    ∃ e, jobs.mapM (Job.inTurn analysis) = .error e := by
  cases hjobs : jobs.mapM (Job.inTurn analysis) with
  | error e => exact ⟨e, rfl⟩
  | ok done =>
    obtain ⟨j', hj'⟩ := exists_ok_of_mem hjobs hj
    obtain ⟨e, he⟩ := Job.inTurn_of_fails h
    rw [he] at hj'
    cases hj'

theorem gives_runInTurn_mapM (h : ∀ content language,
      Gives (analyzer content language) (analysis content language)) (jobs : List Job) :
    Gives (runInTurn analyzer jobs) (jobs.mapM (Job.inTurn analysis)) := by
  induction jobs with
  | nil => exact gives_pure []
  | cons j jobs ih =>
    have hrest (first : Job) :
        Gives (do let others ← runInTurn analyzer jobs; pure (first :: others))
          (do let others ← jobs.mapM (Job.inTurn analysis); pure (first :: others)) :=
      ih.bind_gives fun others _ => gives_pure (first :: others)
    rw [runInTurn, List.mapM_cons, Job.inTurn]
    cases hresult : j.result with
    | some f => exact (gives_pure j).bind_ok (hrest j)
    | none =>
      have hgives := h j.unit.content j.language
      cases hanalysis : analysis j.unit.content j.language with
      | error e =>
        rw [hanalysis] at hgives
        exact hgives.bind_error
      | ok records =>
        rw [hanalysis] at hgives
        exact hgives.bind_ok ((gives_pure _).bind_ok (hrest _))

theorem Settles.eq_inPool {j j' : Job} (hsettles : Settles machine analyzer j j')
    (h : Gives (analyzer j.unit.content j.language) (analysis j.unit.content j.language)) :
    j' = j.inPool (handed machine analysis) := by
  unfold Settles at hsettles
  unfold Job.inPool
  cases hresult : j.result with
  | some f =>
    rw [hresult] at hsettles
    exact hsettles
  | none =>
    rw [hresult] at hsettles
    obtain ⟨r, hr, rfl⟩ : ∃ r, _ ∧ j' = _ := hsettles
    obtain rfl := h.eq_of_canGive hr
    rfl

theorem returns_runPool_map (h : ∀ content language,
      Gives (analyzer content language) (analysis content language)) {order : List Nat}
    (horder : order.Perm (pending jobs)) (settings : LogSettings) (workers : Int) :
    (runPool machine analyzer settings workers order jobs).Returns
      (jobs.map (Job.inPool (handed machine analysis))) := by
  intro log
  have hsettles : List.Forall₂ (Settles machine analyzer) jobs
      ((runPool machine analyzer settings workers order jobs).run log).1 :=
    ensures_runPool horder settings workers log
  have heq : List.Forall₂ (fun j j' => j.inPool (handed machine analysis) = j') jobs
      ((runPool machine analyzer settings workers order jobs).run log).1 :=
    hsettles.imp fun j j' hj => (hj.eq_inPool (h _ _)).symm
  rw [← List.forall₂_map_left_iff (R := Eq), List.forall₂_eq_eq_eq] at heq
  exact heq.symm

/-- What completing jobs gives. -/
def completed (machine : Machine)
    (analysis : Text → Text → Except AnalysisError (List FunctionRecord)) (workers : Int)
    (jobs : List Job) : Except AnalysisError (List Job) :=
  if workers > 1 ∧ (pending jobs).length ≥ parallelThreshold then
    .ok (jobs.map (Job.inPool (handed machine analysis)))
  else jobs.mapM (Job.inTurn analysis)

theorem gives_complete_completed (h : ∀ content language,
      Gives (analyzer content language) (analysis content language))
    (settings : LogSettings) (workers : Int) (jobs : List Job) :
    Gives (complete machine analyzer settings workers jobs)
      ((completed machine analysis workers jobs).mapError BatchError.analysis) := by
  unfold complete completed
  dsimp only
  split
  · exact gives_logged (returns_runPool_map h (machine.finishes _) settings workers)
  · refine (gives_logged (returns_unit _)).bind_ok ?_
    exact (gives_runInTurn_mapM h jobs).adapt BatchError.analysis

/-- The results of jobs, and the cache with those that were analyzed. -/
def returned (limits : Limits) (cache : Option Cache) (places : List Nat) (done : List Job) :
    Except BatchError (List FileFunctions × Option Cache) :=
  match cache with
  | none => .ok (done.filterMap (·.result), none)
  | some c => (store limits done places c).map fun c' => (done.filterMap (·.result), some c')

/-- What analyzing units gives. -/
def ran (machine : Machine) (analysis : Text → Text → Except AnalysisError (List FunctionRecord))
    (o : Options) (cache : Option Cache) (units : List SourceUnit) :
    Except BatchError (List FileFunctions × Option Cache) := do
  let jobs ← (units.mapM (jobOf machine.limits o cache)).mapError BatchError.encoding
  let done ← (completed machine analysis (o.workers.getD machine.processors) jobs).mapError
    BatchError.analysis
  returned machine.limits cache (pending jobs) done

theorem gives_run_ran (h : ∀ content language,
      Gives (analyzer content language) (analysis content language)) (machine : Machine)
    (settings : LogSettings) (o : Options) (cache : Option Cache) (units : List SourceUnit) :
    Gives (run machine analyzer settings o cache units) (ran machine analysis o cache units) := by
  have hlook : ∀ u ∈ units,
      Gives (lookUp machine.limits o cache u) (jobOf machine.limits o cache u) := fun u _ => gives_lookUp machine.limits o cache u
  refine ((Gives.mapM hlook).adapt BatchError.encoding).bind_gives fun jobs _ => ?_
  have hcomplete (workers : Int) : Gives (complete machine analyzer settings workers jobs)
      ((completed machine analysis workers jobs).mapError BatchError.analysis) :=
    gives_complete_completed h settings workers jobs
  cases cache with
  | none => exact (hcomplete _).bind_gives fun done _ => gives_pure _
  | some c =>
    refine (gives_logged (returns_unit _)).bind_ok ((hcomplete _).bind_gives fun done _ => ?_)
    exact (gives_except _).bind_gives fun c' _ => gives_pure _

theorem ran_of_lookUp_error {e : EncodingError}
    (hjobs : units.mapM (jobOf machine.limits o cache) = .error e) :
    ran machine analysis o cache units = .error (.encoding e) := by
  rw [ran, hjobs]
  rfl

/-- The unit is not cached, and cannot be analyzed. -/
def UnitFails (limits : Limits)
    (analysis : Text → Text → Except AnalysisError (List FunctionRecord)) (o : Options)
    (cache : Option Cache) (u : SourceUnit) : Prop :=
  cachedRecords limits o cache u = .ok none ∧
    ∃ e, analysis u.content (languageFor o u) = .error e

/-- The unit is not cached, and what its analysis gives is to be stored and nested too deep for
it. -/
def UnitTooDeep (limits : Limits)
    (analysis : Text → Text → Except AnalysisError (List FunctionRecord)) (o : Options)
    (cache : Option Cache) (u : SourceUnit) : Prop :=
  cache.isSome ∧ cachedRecords limits o cache u = .ok none ∧
    ∃ records, analysis u.content (languageFor o u) = .ok records ∧
      limits.data < FunctionRecord.depthAll records

theorem fails_iff_unitFails {u : SourceUnit} {j : Job} (h : jobOf limits o cache u = .ok j) :
    j.Fails analysis ↔ UnitFails limits analysis o cache u := by
  obtain ⟨records, hrecords, rfl⟩ := map_eq_ok_iff.1 h
  unfold Job.Fails UnitFails
  rw [hrecords]
  cases records with
  | none => simp
  | some records => simp

theorem exists_fails_iff (hjobs : units.mapM (jobOf limits o cache) = .ok jobs) :
    (∃ j ∈ jobs, j.Fails analysis) ↔ ∃ u ∈ units, UnitFails limits analysis o cache u := by
  have hof := mapM_eq_ok_iff.1 hjobs
  clear hjobs
  induction hof with
  | nil => simp
  | cons hj _ ih =>
    rw [List.exists_mem_cons_iff, List.exists_mem_cons_iff]
    exact or_congr (fails_iff_unitFails hj) ih

instance : Decidable (UsesPool machine o cache units) := inferInstanceAs (Decidable (_ ∧ _))

/-- What a batch gets of an analysis: all of it in turn, and what comes back from a pool. -/
def worked (machine : Machine)
    (analysis : Text → Text → Except AnalysisError (List FunctionRecord)) (o : Options)
    (cache : Option Cache) (units : List SourceUnit) :
    Text → Text → Except AnalysisError (List FunctionRecord) :=
  if UsesPool machine o cache units then handed machine analysis else analysis

/-- Without a cache, there is a job for each unit. -/
theorem exists_jobs_none (limits : Limits) (o : Options) (units : List SourceUnit) :
    ∃ jobs, units.mapM (jobOf limits o none) = .ok jobs :=
  exists_jobs_iff.2 fun _ _ => ⟨none, rfl⟩

/-- In turn, the first analysis that fails ends the batch. -/
theorem ran_of_fails (hjobs : units.mapM (jobOf machine.limits o cache) = .ok jobs)
    (alone : ¬ UsesPool machine o cache units)
    (h : ∃ u ∈ units, UnitFails machine.limits analysis o cache u) :
    ∃ e, jobs.mapM (Job.inTurn analysis) = .error e ∧
      ran machine analysis o cache units = .error (.analysis e) := by
  obtain ⟨j, hj, hfails⟩ := (exists_fails_iff hjobs).2 h
  obtain ⟨e, he⟩ := mapM_inTurn_eq_error hj hfails
  have hlength := length_pending_of_jobOf (mapM_eq_ok_iff.1 hjobs)
  have hturn : completed machine analysis (o.workers.getD machine.processors) jobs = .error e :=
    (if_neg fun h => alone ⟨h.1, hlength ▸ h.2⟩).trans he
  refine ⟨e, he, ?_⟩
  rw [ran, hjobs]
  change (completed machine analysis _ jobs).mapError BatchError.analysis >>= _ = _
  rw [hturn]
  rfl

/-- If units go to a pool or no analysis fails, all jobs have their entries in the end. -/
theorem ran_of_completes
    (analysis : Text → Text → Except AnalysisError (List FunctionRecord))
    (hjobs : units.mapM (jobOf machine.limits o cache) = .ok jobs)
    (h : UsesPool machine o cache units ∨
      ¬ ∃ u ∈ units, UnitFails machine.limits analysis o cache u) :
    ran machine analysis o cache units = returned machine.limits cache (pending jobs)
      (jobs.map (Job.inPool (worked machine analysis o cache units))) := by
  have hlength := length_pending_of_jobOf (mapM_eq_ok_iff.1 hjobs)
  have hdone : completed machine analysis (o.workers.getD machine.processors) jobs =
      .ok (jobs.map (Job.inPool (worked machine analysis o cache units))) := by
    unfold worked
    by_cases pooled : UsesPool machine o cache units
    · rw [if_pos pooled]
      exact if_pos ⟨pooled.1, hlength ▸ pooled.2⟩
    · rw [if_neg pooled]
      refine (if_neg fun h => pooled ⟨h.1, hlength ▸ h.2⟩).trans (mapM_inTurn_eq_ok ?_)
      intro j hj hfails
      exact h.resolve_left pooled ((exists_fails_iff hjobs).1 ⟨j, hj, hfails⟩)
  rw [ran, hjobs]
  change (completed machine analysis _ jobs).mapError BatchError.analysis >>= _ = _
  rw [hdone]
  rfl

/-- The result of a unit: what is cached, or else what its analysis gives. -/
def resultFor (limits : Limits)
    (analysis : Text → Text → Except AnalysisError (List FunctionRecord)) (o : Options)
    (cache : Option Cache) (u : SourceUnit) : FileFunctions :=
  match cachedRecords limits o cache u with
  | .ok (some records) => resultOf u records
  | _ => entryOf u (analysis u.content (languageFor o u))

theorem resultFor_none (u : SourceUnit) : resultFor limits analysis o none u =
    entryOf u (analysis u.content (languageFor o u)) := rfl

theorem resultFor_of_missed {u : SourceUnit} (h : cachedRecords limits o cache u = .ok none) :
    resultFor limits analysis o cache u = entryOf u (analysis u.content (languageFor o u)) := by
  rw [resultFor, h]

theorem result_inPool {u : SourceUnit} {j : Job} (h : jobOf limits o cache u = .ok j) :
    (j.inPool analysis).result = some (resultFor limits analysis o cache u) := by
  obtain ⟨records, hrecords, rfl⟩ := map_eq_ok_iff.1 h
  rw [resultFor, hrecords]
  cases records <;> rfl

/-- Completed jobs have the results of all units, in their order. -/
theorem map_result_inPool
    (h : List.Forall₂ (fun u j => jobOf limits o cache u = .ok j) units jobs) :
    (jobs.map (Job.inPool analysis)).map (·.result) =
      (units.map (resultFor limits analysis o cache)).map some := by
  induction h with
  | nil => rfl
  | cons hj _ ih =>
    simp only [List.map_cons, List.cons.injEq]
    exact ⟨result_inPool hj, ih⟩

theorem unstorable_resultFor_iff {u : SourceUnit} :
    Unstorable limits o cache u (resultFor limits analysis o cache u) ↔
      UnitTooDeep limits analysis o cache u := by
  constructor
  · rintro ⟨stored, missed, errors, deep⟩
    rw [resultFor_of_missed missed] at errors deep
    cases hanalysis : analysis u.content (languageFor o u) with
    | error e =>
      rw [hanalysis] at errors
      cases errors
    | ok records =>
      rw [hanalysis] at deep
      exact ⟨stored, missed, records, hanalysis, deep⟩
  · rintro ⟨stored, missed, records, hanalysis, deep⟩
    refine ⟨stored, missed, ?_, ?_⟩
    · rw [resultFor_of_missed missed, hanalysis]
      rfl
    · rw [resultFor_of_missed missed, hanalysis]
      exact deep

/-- The places where storing ends are those of the units that are nested too deep. -/
theorem deepAt_inPool_iff {c : Cache} (hjobs : units.mapM (jobOf limits o (some c)) = .ok jobs)
    {i : Nat} {u : SourceUnit} (hu : units[i]? = some u) :
    i ∈ pending jobs ∧ DeepAt limits (jobs.map (Job.inPool analysis)) i ↔
      UnitTooDeep limits analysis o (some c) u := by
  have hof := mapM_eq_ok_iff.1 hjobs
  rw [← unstorable_resultFor_iff]
  refine (unstorable_iff hof (map_result_inPool hof) hu ?_).symm
  rw [List.getElem?_map, hu]
  rfl

theorem exists_contentKey_inPool
    (analysis : Text → Text → Except AnalysisError (List FunctionRecord)) {c : Cache}
    (hjobs : units.mapM (jobOf limits o (some c)) = .ok jobs) :
    ∀ j ∈ jobs.map (Job.inPool analysis),
      ∃ key, contentKey j.unit.content j.language = .ok key := by
  intro _ hdone
  obtain ⟨j, hj, rfl⟩ := List.mem_map.1 hdone
  obtain ⟨u, -, hu⟩ := (mem_of_mapM_eq_ok hjobs j).1 hj
  have hkey := exists_contentKey hu
  obtain ⟨records, -, rfl⟩ := map_eq_ok_iff.1 hu
  cases records <;> exact hkey

/-- A batch whose jobs are completed has the results of all units, unless one is nested too
deep to be stored. -/
theorem returned_cases (analysis : Text → Text → Except AnalysisError (List FunctionRecord))
    (hjobs : units.mapM (jobOf limits o cache) = .ok jobs) :
    ((∃ u ∈ units, UnitTooDeep limits analysis o cache u) ∧
        ∃ left, returned limits cache (pending jobs) (jobs.map (Job.inPool analysis)) =
          .error (.unstored (.nesting .data) left)) ∨
      (¬ ∃ u ∈ units, UnitTooDeep limits analysis o cache u) ∧
        ∃ cache', cache'.isSome = cache.isSome ∧
          returned limits cache (pending jobs) (jobs.map (Job.inPool analysis)) =
            .ok (units.map (resultFor limits analysis o cache), cache') := by
  unfold returned
  rw [filterMap_result (map_result_inPool (mapM_eq_ok_iff.1 hjobs))]
  cases cache with
  | none =>
    refine .inr ⟨?_, none, rfl, rfl⟩
    rintro ⟨u, -, stored, -⟩
    cases stored
  | some c =>
    dsimp only
    rcases store_cases (exists_contentKey_inPool analysis hjobs) (pending jobs) c with
      ⟨c', hstore, hshallow⟩ | ⟨before, i, after, left, hplaces, hdeep, -, hstore⟩
    · refine .inr ⟨?_, some c', rfl, by rw [hstore]; rfl⟩
      rintro ⟨u, hu, hdeep⟩
      obtain ⟨i, hi⟩ := List.mem_iff_getElem?.1 hu
      obtain ⟨hpending, hplace⟩ := (deepAt_inPool_iff hjobs hi).2 hdeep
      exact hshallow i hpending hplace
    · have hpending : i ∈ pending jobs := by simp [hplaces]
      obtain ⟨u, hu, -⟩ := (mem_pending_iff_missed (mapM_eq_ok_iff.1 hjobs)).1 hpending
      exact .inl ⟨⟨u, List.mem_of_getElem? hu, (deepAt_inPool_iff hjobs hu).1 ⟨hpending, hdeep⟩⟩,
        left, by rw [hstore]; rfl⟩

/-- How a batch ends whose units could be looked up. -/
inductive RunEnds (machine : Machine)
    (analysis : Text → Text → Except AnalysisError (List FunctionRecord)) (o : Options)
    (cache : Option Cache) (units : List SourceUnit) :
    Except BatchError (List FileFunctions × Option Cache) → Prop
  | fails {e : AnalysisError} (alone : ¬ UsesPool machine o cache units)
      (h : ∃ u ∈ units, UnitFails machine.limits analysis o cache u) :
      RunEnds machine analysis o cache units (.error (.analysis e))
  | unstored {left : Cache} (completes : UsesPool machine o cache units ∨
        ¬ ∃ u ∈ units, UnitFails machine.limits analysis o cache u)
      (h : ∃ u ∈ units,
        UnitTooDeep machine.limits (worked machine analysis o cache units) o cache u) :
      RunEnds machine analysis o cache units (.error (.unstored (.nesting .data) left))
  | returns {cache' : Option Cache} (completes : UsesPool machine o cache units ∨
        ¬ ∃ u ∈ units, UnitFails machine.limits analysis o cache u)
      (shallow : ¬ ∃ u ∈ units,
        UnitTooDeep machine.limits (worked machine analysis o cache units) o cache u)
      (kept : cache'.isSome = cache.isSome) :
      RunEnds machine analysis o cache units
        (.ok (units.map (resultFor machine.limits (worked machine analysis o cache units) o cache),
          cache'))

theorem runEnds_ran (analysis : Text → Text → Except AnalysisError (List FunctionRecord))
    (hjobs : units.mapM (jobOf machine.limits o cache) = .ok jobs) :
    RunEnds machine analysis o cache units (ran machine analysis o cache units) := by
  by_cases completes : UsesPool machine o cache units ∨
      ¬ ∃ u ∈ units, UnitFails machine.limits analysis o cache u
  · rw [ran_of_completes analysis hjobs completes]
    rcases returned_cases (worked machine analysis o cache units) hjobs with
      ⟨hdeep, left, h⟩ | ⟨hshallow, cache', kept, h⟩
    · rw [h]
      exact .unstored completes hdeep
    · rw [h]
      exact .returns completes hshallow kept
  · rw [not_or, not_not] at completes
    obtain ⟨e, -, h⟩ := ran_of_fails hjobs completes.1 completes.2
    rw [h]
    exact .fails completes.1 completes.2

end

/-- What a call ends in: the results and the cache that it leaves, or why there are none. -/
def outcomeBy (parse : TreeParser) (machine : Machine) (settings : LogSettings) (o : Options)
    (cache : Option Cache) (values : List Value) :
    Except BatchError (List FileFunctions × Option Cache) :=
  (outcome (analyzeBatchBy machine (analyzeBy parse) settings o cache values).run).1

/-- A batch of units that are given as data ends as the batch of these units. -/
theorem gives_analyzeBatchBy {analyzer : Analyzer}
    {analysis : Text → Text → Except AnalysisError (List FunctionRecord)}
    (h : ∀ content language, Gives (analyzer content language) (analysis content language))
    (machine : Machine) (settings : LogSettings) (o : Options) (cache : Option Cache)
    (values : List Value) :
    Gives (analyzeBatchBy machine analyzer settings o cache values)
      (checkUnits values >>= ran machine analysis o cache) :=
  (gives_except _).bind_gives fun units _ => gives_run_ran h machine settings o cache units

theorem outcomeBy_eq (parse : TreeParser) (machine : Machine) (settings : LogSettings)
    (o : Options) (cache : Option Cache) (values : List Value) :
    outcomeBy parse machine settings o cache values =
      checkUnits values >>= ran machine (analysisOutcome parse) o cache :=
  (gives_analyzeBatchBy (gives_analyzeBy parse) machine settings o cache values).outcome

end Batch

end FunctionInventory
