import FunctionInventory.Proofs.BatchOutcomes

/-!
# What batches store

A batch puts nothing into the cache but the analyses of its units, whichever of them fail,
whichever were found under a key that they share with others, and wherever storing ends. So a cache
of analyses stays one.
-/
namespace FunctionInventory

theorem analysisOf_of_worked {parse : TreeParser} {machine : Machine} {o : Batch.Options}
    {cache : Option Cache} {units : List SourceUnit} {content language : Text}
    {records : List FunctionRecord}
    (h : Batch.worked machine (analysisOutcome parse) o cache units content language =
      .ok records) : analysisOf parse content language = records := by
  unfold Batch.worked at h
  split at h
  · exact analysisOf_of_eq_ok (Batch.handed_eq_ok_iff.1 h).1
  · exact analysisOf_of_eq_ok h

namespace Batch

variable {machine : Machine} {limits : Limits}
  {analysis : Text → Text → Except AnalysisError (List FunctionRecord)} {o : Options}
  {units : List SourceUnit} {jobs : List Job} {c c' : Cache}

/-- What a batch leaves of its cache. -/
def leftIn (c : Cache) : Except BatchError (List FileFunctions × Option Cache) → Cache
  | .ok (_, cache) => cache.getD c
  | .error e => e.left c

theorem left_of_checkUnits {values : List Value} {e : BatchError}
    (h : checkUnits values = .error e) : e.left c = c := by
  obtain ⟨v, -, hv⟩ := exists_mem_of_mapM_eq_error h
  split at hv
  · cases hv
  · cases hv
    rfl

/-- A batch leaves the cache as it was, or with the results at the first of the places that were
pending. -/
theorem leftIn_ran (machine : Machine)
    (analysis : Text → Text → Except AnalysisError (List FunctionRecord)) (o : Options) (c : Cache)
    (units : List SourceUnit) :
    leftIn c (ran machine analysis o (some c) units) = c ∨
      ∃ jobs places, units.mapM (jobOf machine.limits o (some c)) = .ok jobs ∧
        places <+: pending jobs ∧
        store machine.limits (jobs.map (Job.inPool (worked machine analysis o (some c) units)))
          places c = .ok (leftIn c (ran machine analysis o (some c) units)) := by
  cases hjobs : units.mapM (jobOf machine.limits o (some c)) with
  | error e =>
    rw [ran_of_lookUp_error hjobs]
    exact .inl rfl
  | ok jobs =>
    by_cases completes : UsesPool machine o (some c) units ∨
        ¬ ∃ u ∈ units, UnitFails machine.limits analysis o (some c) u
    · right
      rw [ran_of_completes analysis hjobs completes, returned]
      rcases store_cases (exists_contentKey_inPool _ hjobs) (pending jobs) c with
        ⟨c', hstore, -⟩ | ⟨before, i, after, left, hplaces, -, hbefore, hstore⟩
      · refine ⟨jobs, pending jobs, rfl, List.prefix_refl _, ?_⟩
        rw [hstore]
        rfl
      · refine ⟨jobs, before, rfl, hplaces ▸ List.prefix_append before _, ?_⟩
        rw [hstore]
        exact hbefore
    · rw [not_or, not_not] at completes
      obtain ⟨e, -, hran⟩ := ran_of_fails hjobs completes.1 completes.2
      rw [hran]
      exact .inl rfl

variable {found : Text → Text → List FunctionRecord} {known : Set (Text × Text)}

/-- Storing a job that had to be analyzed keeps a cache of analyses: if its analysis failed, there
is nothing to store. -/
theorem holdsAnalyses_storeAt (hfound : ∀ content language records,
      analysis content language = .ok records → found content language = records) {i : Nat}
    (hi : ∀ j, jobs[i]? = some j → (j.unit.content, j.language) ∈ known ∧ j.result = none)
    (h : storeAt limits (jobs.map (Job.inPool analysis)) c i = .ok c')
    (hc : HoldsAnalyses found known c.entries) :
    c'.directory = c.directory ∧ HoldsAnalyses found known c'.entries := by
  rw [storeAt, List.getElem?_map] at h
  cases hj : jobs[i]? with
  | none =>
    rw [hj] at h
    cases h
    exact ⟨rfl, hc⟩
  | some j =>
    obtain ⟨hknown, hresult⟩ := hi j hj
    have hpool : j.inPool analysis = j.settle (analysis j.unit.content j.language) := by
      rw [Job.inPool, hresult]
    rw [hj, Option.map_some, hpool] at h
    cases hanalysis : analysis j.unit.content j.language with
    | error e =>
      rw [hanalysis] at h
      cases h
      exact ⟨rfl, hc⟩
    | ok records =>
      rw [hanalysis] at h
      have hput : c.put limits j.unit.content j.language records = .ok c' :=
        mapError_eq_ok_iff.1 h
      obtain ⟨-, key, hkey, rfl⟩ := Cache.put_eq_ok_iff.1 hput
      rw [(contentKey_eq_ok_iff.1 hkey).2, ← hfound _ _ _ hanalysis]
      exact ⟨rfl, hc.put hknown⟩

/-- Storing jobs that had to be analyzed keeps a cache of analyses. -/
theorem holdsAnalyses_store (hfound : ∀ content language records,
      analysis content language = .ok records → found content language = records)
    {places : List Nat} (hplaces : ∀ i ∈ places, ∀ j, jobs[i]? = some j →
      (j.unit.content, j.language) ∈ known ∧ j.result = none)
    (h : store limits (jobs.map (Job.inPool analysis)) places c = .ok c')
    (hc : HoldsAnalyses found known c.entries) :
    c'.directory = c.directory ∧ HoldsAnalyses found known c'.entries := by
  induction places generalizing c with
  | nil =>
    cases h
    exact ⟨rfl, hc⟩
  | cons i places ih =>
    obtain ⟨hi, hplaces⟩ := List.forall_mem_cons.1 hplaces
    rw [store, List.foldlM_cons] at h
    obtain ⟨c₁, hfirst, hrest⟩ := bind_eq_ok_iff.1 h
    obtain ⟨hdirectory₁, hc₁⟩ := holdsAnalyses_storeAt hfound hi hfirst hc
    obtain ⟨hdirectory, hc'⟩ := ih hplaces hrest hc₁
    exact ⟨hdirectory.trans hdirectory₁, hc'⟩

/-- However a batch ends, it leaves a cache of analyses as one. -/
theorem holdsAnalyses_ran {parse : TreeParser} (machine : Machine) {o : Options}
    {units : List SourceUnit} (hunits : ∀ u ∈ units, (u.content, languageFor o u) ∈ known)
    {c : Cache} (hc : HoldsAnalyses (analysisOf parse) known c.entries) :
    (leftIn c (ran machine (analysisOutcome parse) o (some c) units)).directory = c.directory ∧
      HoldsAnalyses (analysisOf parse) known
        (leftIn c (ran machine (analysisOutcome parse) o (some c) units)).entries := by
  rcases leftIn_ran machine (analysisOutcome parse) o c units with
    hsame | ⟨jobs, places, hjobs, hfirst, hstore⟩
  · rw [hsame]
    exact ⟨rfl, hc⟩
  · refine holdsAnalyses_store (fun _ _ _ => analysisOf_of_worked) ?_ hstore hc
    intro i hi j hj
    obtain ⟨j', hj', hnone⟩ := mem_pending.1 (hfirst.subset hi)
    obtain rfl : j' = j := Option.some.inj (hj'.symm.trans hj)
    obtain ⟨u, hu, hof⟩ := (mem_of_mapM_eq_ok hjobs j').1 (List.mem_of_getElem? hj)
    obtain ⟨records, -, rfl⟩ := map_eq_ok_iff.1 hof
    exact ⟨hunits u hu, hnone⟩

end Batch

end FunctionInventory
