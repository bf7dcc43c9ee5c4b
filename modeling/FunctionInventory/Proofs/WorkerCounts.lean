import FunctionInventory.Proofs.BatchOutcomes

/-!
# The number of workers

A pool keeps the failure of an analysis in the entry of its unit, while analyzing in turn
ends with the first failure; and what a worker found may be lost on its way back. So the number of
workers shows in the outcome of a batch, and this module says exactly when: if only one of two
numbers leads to a pool, and the analysis of a unit that is not cached fails, or its result is lost
while none is nested too deep to be stored.
-/
namespace FunctionInventory

open Logged

namespace Batch

section

variable {machine : Machine}
  {analysis : Text → Text → Except AnalysisError (List FunctionRecord)} {jobs : List Job}
  {cache : Option Cache} {units : List SourceUnit}

/-- Outcomes that are the same for who called: they are equal, or both say for the same cause that
a result cannot be stored. -/
def SameOutcome (r r' : Except BatchError (List FileFunctions × Option Cache)) : Prop :=
  r = r' ∨ ∃ cause left left', r = .error (.unstored cause left) ∧
    r' = .error (.unstored cause left')

theorem SameOutcome.refl (r : Except BatchError (List FileFunctions × Option Cache)) :
    SameOutcome r r := .inl rfl

theorem SameOutcome.symm {r r' : Except BatchError (List FileFunctions × Option Cache)}
    (h : SameOutcome r r') : SameOutcome r' r :=
  h.imp Eq.symm fun ⟨cause, left, left', hr, hr'⟩ => ⟨cause, left', left, hr', hr⟩

/-- The unit is not cached, and what is found in it does not come back from a worker. -/
def UnitLost (machine : Machine)
    (analysis : Text → Text → Except AnalysisError (List FunctionRecord)) (o : Options)
    (cache : Option Cache) (u : SourceUnit) : Prop :=
  cachedRecords machine.limits o cache u = .ok none ∧ ∃ records message,
    analysis u.content (languageFor o u) = .ok records ∧ machine.lost records = some message

theorem handed_of_not_unitLost {o : Options} {u : SourceUnit}
    (missed : cachedRecords machine.limits o cache u = .ok none)
    (h : ¬ UnitLost machine analysis o cache u) :
    handed machine analysis u.content (languageFor o u) =
      analysis u.content (languageFor o u) := by
  cases hanalysis : analysis u.content (languageFor o u) with
  | error e =>
    rw [handed, hanalysis]
    rfl
  | ok records =>
    refine handed_eq_ok_iff.2 ⟨hanalysis, Option.eq_none_iff_forall_ne_some.2 ?_⟩
    exact fun message hlost => h ⟨missed, records, message, hanalysis, hlost⟩

theorem UnitTooDeep.of_handed {o : Options} {u : SourceUnit}
    (h : UnitTooDeep machine.limits (handed machine analysis) o cache u) :
    UnitTooDeep machine.limits analysis o cache u := by
  obtain ⟨stored, missed, records, hrecords, deep⟩ := h
  exact ⟨stored, missed, records, (handed_eq_ok_iff.1 hrecords).1, deep⟩

/-- Where nothing is lost, workers leave what analyzing in turn does. -/
theorem map_inPool_handed {o : Options}
    (hjobs : units.mapM (jobOf machine.limits o cache) = .ok jobs)
    (h : ¬ ∃ u ∈ units, UnitLost machine analysis o cache u) :
    jobs.map (Job.inPool (handed machine analysis)) = jobs.map (Job.inPool analysis) := by
  apply List.map_congr_left
  intro j hj
  obtain ⟨u, hu, hof⟩ := (mem_of_mapM_eq_ok hjobs j).1 hj
  obtain ⟨records, hrecords, rfl⟩ := map_eq_ok_iff.1 hof
  cases records with
  | some records => rfl
  | none =>
    have heq := handed_of_not_unitLost hrecords fun hlost => h ⟨u, hu, hlost⟩
    simp only [Job.inPool, Option.map_none, heq]

/-- A pool and analyzing in turn differ if no analysis fails, exactly if a result is lost and the
pool has none that is nested too deep. -/
theorem not_same_returned_iff {o : Options}
    (hjobs : units.mapM (jobOf machine.limits o cache) = .ok jobs) :
    ¬ SameOutcome
        (returned machine.limits cache (pending jobs)
          (jobs.map (Job.inPool (handed machine analysis))))
        (returned machine.limits cache (pending jobs) (jobs.map (Job.inPool analysis))) ↔
      (∃ u ∈ units, UnitLost machine analysis o cache u) ∧
        ¬ ∃ u ∈ units, UnitTooDeep machine.limits (handed machine analysis) o cache u := by
  by_cases hlost : ∃ u ∈ units, UnitLost machine analysis o cache u
  · rcases returned_cases (handed machine analysis) hjobs with
      ⟨⟨u, hu, hdeep⟩, left, hpool⟩ | ⟨hshallow, c, -, hpool⟩
    · rcases returned_cases analysis hjobs with ⟨-, left', hturn⟩ | ⟨hshallow, -⟩
      · rw [hpool, hturn]
        exact iff_of_false (fun h => h (.inr ⟨_, _, _, rfl, rfl⟩)) fun h => h.2 ⟨u, hu, hdeep⟩
      · exact absurd ⟨u, hu, hdeep.of_handed⟩ hshallow
    · refine iff_of_true ?_ ⟨hlost, hshallow⟩
      rintro (h | ⟨cause, left, left', h, -⟩)
      · obtain ⟨u, hu, missed, records, message, hrecords, hgone⟩ := hlost
        rcases returned_cases analysis hjobs with ⟨-, left', hturn⟩ | ⟨-, c', -, hturn⟩
        · rw [hpool, hturn] at h
          cases h
        · rw [hpool, hturn, Except.ok.injEq, Prod.mk.injEq, List.map_inj_left] at h
          have hresult := h.1 u hu
          rw [resultFor_of_missed missed, resultFor_of_missed missed, handed, hrecords,
            handOver_of_lost_eq_some hgone] at hresult
          cases hresult
      · rw [hpool] at h
        cases h
  · rw [map_inPool_handed hjobs hlost]
    exact iff_of_false (fun h => h (.refl _)) fun h => hlost h.1

/-- How a pool differs from analyzing in turn. -/
theorem not_same_ran_iff {language : Option Text} {workers workers' : Option Int}
    (hjobs : units.mapM (jobOf machine.limits ⟨workers, language⟩ cache) = .ok jobs)
    (pooled : UsesPool machine ⟨workers, language⟩ cache units)
    (alone : ¬ UsesPool machine ⟨workers', language⟩ cache units) :
    ¬ SameOutcome (ran machine analysis ⟨workers, language⟩ cache units)
        (ran machine analysis ⟨workers', language⟩ cache units) ↔
      (∃ u ∈ units, UnitFails machine.limits analysis ⟨workers, language⟩ cache u) ∨
        (∃ u ∈ units, UnitLost machine analysis ⟨workers, language⟩ cache u) ∧
          ¬ ∃ u ∈ units, UnitTooDeep machine.limits (handed machine analysis)
            ⟨workers, language⟩ cache u := by
  have hjobs' : units.mapM (jobOf machine.limits ⟨workers', language⟩ cache) = .ok jobs := hjobs
  have hpool := ran_of_completes analysis hjobs (.inl pooled)
  rw [worked, if_pos pooled] at hpool
  by_cases fails : ∃ u ∈ units, UnitFails machine.limits analysis ⟨workers, language⟩ cache u
  · refine iff_of_true ?_ (.inl fails)
    obtain ⟨e, -, hturn⟩ := ran_of_fails hjobs' alone fails
    rw [hturn]
    rintro (h | ⟨cause, left, left', -, h⟩)
    · have hends := runEnds_ran analysis hjobs
      rw [h] at hends
      cases hends with
      | fails alone => exact alone pooled
    · cases h
  · have hturn := ran_of_completes analysis hjobs' (.inr fails)
    rw [worked, if_neg alone] at hturn
    rw [hpool, hturn, not_same_returned_iff hjobs]
    exact ⟨.inr, fun h => h.resolve_left fails⟩

/-- Without a pool, or with one for both numbers, the number of workers does not matter. -/
theorem ran_eq_of_usesPool_iff {language : Option Text} {workers workers' : Option Int}
    (hjobs : units.mapM (jobOf machine.limits ⟨workers, language⟩ cache) = .ok jobs)
    (h : UsesPool machine ⟨workers, language⟩ cache units ↔
      UsesPool machine ⟨workers', language⟩ cache units) :
    ran machine analysis ⟨workers, language⟩ cache units =
      ran machine analysis ⟨workers', language⟩ cache units := by
  have hjobs' : units.mapM (jobOf machine.limits ⟨workers', language⟩ cache) = .ok jobs := hjobs
  have hworked : worked machine analysis ⟨workers, language⟩ cache units =
      worked machine analysis ⟨workers', language⟩ cache units := by
    unfold worked
    simp only [h]
  by_cases completes : UsesPool machine ⟨workers, language⟩ cache units ∨
      ¬ ∃ u ∈ units, UnitFails machine.limits analysis ⟨workers, language⟩ cache u
  · rw [ran_of_completes analysis hjobs completes,
      ran_of_completes analysis hjobs' (completes.imp_left h.1), hworked]
  · rw [not_or, not_not] at completes
    obtain ⟨e, he, hran⟩ := ran_of_fails hjobs completes.1 completes.2
    obtain ⟨e', he', hran'⟩ := ran_of_fails hjobs' (mt h.2 completes.1) completes.2
    obtain rfl : e = e' := Except.error.inj (he.symm.trans he')
    rw [hran, hran']

theorem not_same_iff {language : Option Text} {workers workers' : Option Int}
    (hjobs : units.mapM (jobOf machine.limits ⟨workers, language⟩ cache) = .ok jobs) :
    ¬ SameOutcome (ran machine analysis ⟨workers, language⟩ cache units)
        (ran machine analysis ⟨workers', language⟩ cache units) ↔
      ¬ (UsesPool machine ⟨workers, language⟩ cache units ↔
          UsesPool machine ⟨workers', language⟩ cache units) ∧
        ((∃ u ∈ units, UnitFails machine.limits analysis ⟨workers, language⟩ cache u) ∨
          (∃ u ∈ units, UnitLost machine analysis ⟨workers, language⟩ cache u) ∧
            ¬ ∃ u ∈ units, UnitTooDeep machine.limits (handed machine analysis)
              ⟨workers, language⟩ cache u) := by
  have hjobs' : units.mapM (jobOf machine.limits ⟨workers', language⟩ cache) = .ok jobs := hjobs
  by_cases hsame : UsesPool machine ⟨workers, language⟩ cache units ↔
      UsesPool machine ⟨workers', language⟩ cache units
  · rw [ran_eq_of_usesPool_iff hjobs hsame]
    exact iff_of_false (fun h => h (.refl _)) fun h => h.1 hsame
  · rw [and_iff_right hsame]
    by_cases pooled : UsesPool machine ⟨workers, language⟩ cache units
    · exact not_same_ran_iff hjobs pooled fun pooled' => hsame (iff_of_true pooled pooled')
    · have pooled' : UsesPool machine ⟨workers', language⟩ cache units := by
        by_contra alone
        exact hsame (iff_of_false pooled alone)
      have hsymm : SameOutcome (ran machine analysis ⟨workers, language⟩ cache units)
            (ran machine analysis ⟨workers', language⟩ cache units) ↔
          SameOutcome (ran machine analysis ⟨workers', language⟩ cache units)
            (ran machine analysis ⟨workers, language⟩ cache units) := ⟨.symm, .symm⟩
      rw [hsymm]
      exact not_same_ran_iff hjobs' pooled' pooled

end

/-- Two numbers of workers, on one machine and with workers that finish in any order, lead to
different outcomes if and only if exactly one of them leads to a pool and, of the units that are
not cached, the analysis of one fails, or the result of one is lost while the pool has none that
is nested too deep to be stored. The failure or the loss is then kept in an entry by the pool. -/
theorem workers_show_iff (parse : TreeParser) (machine : Machine)
    (completion' : List Nat → List Nat) (finishes' : ∀ places, (completion' places).Perm places)
    (settings settings' : LogSettings) (language : Option Text) (cache : Option Cache)
    (values : List Value) (workers workers' : Option Int) :
    ¬ SameOutcome (outcomeBy parse machine settings ⟨workers, language⟩ cache values)
        (outcomeBy parse { machine with completion := completion', finishes := finishes' } settings'
          ⟨workers', language⟩ cache values) ↔
      ∃ units, checkUnits values = .ok units ∧
        (∀ u ∈ units, ∃ records,
          cachedRecords machine.limits ⟨workers, language⟩ cache u = .ok records) ∧
        ¬ (UsesPool machine ⟨workers, language⟩ cache units ↔
          UsesPool machine ⟨workers', language⟩ cache units) ∧
        ((∃ u ∈ units,
            UnitFails machine.limits (analysisOutcome parse) ⟨workers, language⟩ cache u) ∨
          (∃ u ∈ units, UnitLost machine (analysisOutcome parse) ⟨workers, language⟩ cache u) ∧
            ¬ ∃ u ∈ units, UnitTooDeep machine.limits (handed machine (analysisOutcome parse))
              ⟨workers, language⟩ cache u) := by
  rw [outcomeBy_eq, outcomeBy_eq]
  cases hvalid : checkUnits values with
  | error e =>
    refine iff_of_false (fun h => h (.refl _)) ?_
    rintro ⟨units, hunits, -⟩
    cases hunits
  | ok units =>
    change ¬ SameOutcome (ran machine _ _ _ units) (ran machine _ _ _ units) ↔ _
    cases hjobs : units.mapM (jobOf machine.limits ⟨workers, language⟩ cache) with
    | error e =>
      have hjobs' : units.mapM (jobOf machine.limits ⟨workers', language⟩ cache) = .error e := hjobs
      rw [ran_of_lookUp_error hjobs, ran_of_lookUp_error hjobs']
      refine iff_of_false (fun h => h (.refl _)) ?_
      rintro ⟨_, ⟨⟩, found, -⟩
      obtain ⟨jobs, hok⟩ := exists_jobs_iff.2 found
      rw [hjobs] at hok
      cases hok
    | ok jobs =>
      rw [not_same_iff hjobs]
      constructor
      · intro h
        exact ⟨units, rfl, exists_jobs_iff.1 ⟨jobs, hjobs⟩, h⟩
      · rintro ⟨_, ⟨⟩, -, h⟩
        exact h

namespace Sample

def unknownLanguage : Text := "cobol"

/-- Just enough units for a pool. -/
def fifty : List SourceUnit := List.replicate 50 sound

theorem fifty_jobs (limits : Limits) (workers : Option Int) :
    fifty.mapM (jobOf limits ⟨workers, some unknownLanguage⟩ none) =
      .ok (List.replicate 50 ⟨sound, unknownLanguage, none⟩) := by
  have hmap : List.replicate 50 (Job.mk sound unknownLanguage none) =
      fifty.map fun u => ⟨u, unknownLanguage, none⟩ := by rw [fifty, List.map_replicate]
  rw [hmap, mapM_eq_ok_iff, List.forall₂_map_right_iff, List.forall₂_same]
  exact fun u _ => rfl

theorem usesPool_fifty : UsesPool {} ⟨some 2, some unknownLanguage⟩ none fifty := by
  refine ⟨by decide, ?_⟩
  rw [fifty, List.countP_replicate]
  decide

theorem not_usesPool_fifty : ¬ UsesPool {} ⟨some 1, some unknownLanguage⟩ none fifty := by
  rintro ⟨hworkers, -⟩
  exact absurd hworkers (by decide)

theorem outcome_unknownLanguage (content : Text) :
    analysisOutcome Language.treeParser content unknownLanguage =
      .error (.unsupported unknownLanguage) :=
  analysisOutcome_of_unsupported _ rfl content

/-- One worker and two workers give different outcomes for fifty units in an unknown
language. -/
theorem workers_show_iff_sample : (∀ places : List Nat, places.reverse.Perm places) ∧
    ¬ SameOutcome
      (outcomeBy Language.treeParser {} {} ⟨some 1, some unknownLanguage⟩ none
        (fifty.map SourceUnit.dump))
      (outcomeBy Language.treeParser
        { completion := List.reverse, finishes := List.reverse_perm } {}
        ⟨some 2, some unknownLanguage⟩ none (fifty.map SourceUnit.dump)) := by
  refine ⟨List.reverse_perm, (workers_show_iff Language.treeParser {} List.reverse
    List.reverse_perm {} {} _ none _ (some 1) (some 2)).2
      ⟨fifty, checkUnits_dump fifty, ?_, ?_, .inl ?_⟩⟩
  · exact fun u _ => ⟨none, rfl⟩
  · exact fun h => not_usesPool_fifty (h.2 usesPool_fifty)
  · exact ⟨sound, List.mem_replicate.2 ⟨by decide, rfl⟩, rfl, _, outcome_unknownLanguage _⟩

/-- The unknown language ends the batch of one worker, while two workers have fifty entries
that name it. -/
theorem pool_keeps_unsupported_language :
    (outcome (analyzeBatch {} ⟨some 1, some unknownLanguage⟩ none
      (fifty.map SourceUnit.dump)).run).1 = .error (.analysis (.unsupported unknownLanguage)) ∧
    (outcome (analyzeBatch {} ⟨some 2, some unknownLanguage⟩ none
      (fifty.map SourceUnit.dump)).run).1 = .ok (List.replicate 50
        { path := sound.path, errors := ["Unsupported language: cobol"] }, none) := by
  have houtcome (workers : Option Int) :
      (outcome (analyzeBatch {} ⟨workers, some unknownLanguage⟩ none
        (fifty.map SourceUnit.dump)).run).1 =
      ran {} (analysisOutcome Language.treeParser) ⟨workers, some unknownLanguage⟩ none fifty := by
    have h := outcomeBy_eq Language.treeParser {} {} ⟨workers, some unknownLanguage⟩ none
      (fifty.map SourceUnit.dump)
    rw [checkUnits_dump] at h
    exact h
  have hfails : ∃ u ∈ fifty, UnitFails (default : Machine).limits
      (analysisOutcome Language.treeParser) ⟨some 1, some unknownLanguage⟩ none u :=
    ⟨sound, List.mem_replicate.2 ⟨by decide, rfl⟩, rfl, _, outcome_unknownLanguage _⟩
  constructor
  · obtain ⟨e, he, hran⟩ := ran_of_fails (fifty_jobs _ _) not_usesPool_fifty hfails
    rw [List.replicate_succ, List.mapM_cons, Job.inTurn, outcome_unknownLanguage] at he
    cases he
    rw [houtcome, hran]
  · rw [houtcome, ran_of_completes _ (fifty_jobs _ _) (.inl usesPool_fifty), worked,
      if_pos usesPool_fifty, List.map_replicate, Job.inPool, handed, outcome_unknownLanguage]
    rfl

end Sample

end Batch

end FunctionInventory
