import FunctionInventory.Batch
import FunctionInventory.Proofs.Outcomes
import FunctionInventory.Proofs.CacheEntries
import Mathlib.Data.List.Forall2
import Mathlib.Data.List.Induction

/-!
# The results of a pool

Workers finish in any order, analyses may fail, and what they found may not come back from a
worker. Each place of the batch is still filled exactly once, with the cached records or with what
came back for its own unit. The batch has these entries as its results, unless one that is to be
stored is nested too deep for it. Nothing is known of the analyzer here: what it does may even
depend on the log.
-/
namespace FunctionInventory

open Logged

namespace Batch

/-- The records that the cache has for a unit. -/
def cachedRecords (limits : Limits) (o : Options) (cache : Option Cache) (u : SourceUnit) :
    Except EncodingError (Option (List FunctionRecord)) :=
  match cache with
  | none => .ok none
  | some c => c.found limits u.content (languageFor o u)

/-- The job of a unit that was looked up. -/
def jobOf (limits : Limits) (o : Options) (cache : Option Cache) (u : SourceUnit) :
    Except EncodingError Job :=
  (cachedRecords limits o cache u).map fun records =>
    ⟨u, languageFor o u, records.map (resultOf u)⟩

theorem gives_lookUp (limits : Limits) (o : Options) (cache : Option Cache) (u : SourceUnit) :
    Gives (lookUp limits o cache u) (jobOf limits o cache u) := by
  unfold lookUp jobOf cachedRecords
  cases cache with
  | none => exact gives_pure _
  | some c =>
    have hget := c.gives_get limits u.content (languageFor o u)
    dsimp only
    cases hfound : c.found limits u.content (languageFor o u) with
    | error e =>
      rw [hfound] at hget
      exact hget.bind_error
    | ok records =>
      rw [hfound] at hget
      exact hget.bind_ok (gives_pure _)

/-- Whether a unit has to be analyzed. -/
def isMissed (limits : Limits) (o : Options) (cache : Option Cache) (u : SourceUnit) : Bool :=
  match cachedRecords limits o cache u with
  | .ok none => true
  | _ => false

/-- Whether units are analyzed in a pool: there are workers for it, and enough units that
the cache does not have. -/
def UsesPool (machine : Machine) (o : Options) (cache : Option Cache) (units : List SourceUnit) :
    Prop :=
  1 < o.workers.getD machine.processors ∧
    parallelThreshold ≤ units.countP (isMissed machine.limits o cache)

section

variable {machine : Machine} {limits : Limits} {analyzer : Analyzer} {o : Options}
  {cache : Option Cache} {jobs : List Job} {units : List SourceUnit}

theorem mem_pending {k : Nat} : k ∈ pending jobs ↔ ∃ j, jobs[k]? = some j ∧ j.result = none := by
  rw [pending, List.mem_filter, List.mem_range]
  cases hk : jobs[k]? with
  | none => simp
  | some j =>
    obtain ⟨hlt, -⟩ := List.getElem?_eq_some_iff.1 hk
    simp [hlt]

/-- There is a job for each unit if and only if no look-up fails. -/
theorem exists_jobs_iff : (∃ jobs, units.mapM (jobOf limits o cache) = .ok jobs) ↔
    ∀ u ∈ units, ∃ records, cachedRecords limits o cache u = .ok records := by
  constructor
  · rintro ⟨jobs, hjobs⟩ u hu
    obtain ⟨j, hj⟩ := exists_ok_of_mem hjobs hu
    obtain ⟨records, hrecords, -⟩ := map_eq_ok_iff.1 hj
    exact ⟨records, hrecords⟩
  · intro found
    apply exists_mapM_eq_ok
    intro u hu
    obtain ⟨records, hrecords⟩ := found u hu
    exact ⟨_, map_eq_ok_iff.2 ⟨records, hrecords, rfl⟩⟩

theorem result_isNone_of_jobOf {u : SourceUnit} {j : Job} (h : jobOf limits o cache u = .ok j) :
    j.result.isNone = isMissed limits o cache u := by
  obtain ⟨records, hrecords, rfl⟩ := map_eq_ok_iff.1 h
  rw [isMissed, hrecords]
  cases records with
  | none => rfl
  | some records => rfl

theorem length_pending (jobs : List Job) :
    (pending jobs).length = jobs.countP (·.result.isNone) := by
  induction jobs using List.reverseRecOn with
  | nil => rfl
  | append_singleton jobs j ih =>
    have hbefore : (List.range jobs.length).filter
          (fun i => ((jobs ++ [j])[i]?.map (·.result.isNone)).getD false) = pending jobs := by
      apply List.filter_congr
      intro i hi
      rw [List.getElem?_append_left (List.mem_range.1 hi)]
    have hlast : (jobs ++ [j])[jobs.length]? = some j := by simp
    rw [pending, List.length_append, List.length_singleton, List.range_succ, List.filter_append,
      hbefore, List.length_append, ih, List.countP_append, List.filter_singleton, hlast]
    cases hj : j.result.isNone <;> simp [hj]

theorem length_pending_of_jobOf
    (h : List.Forall₂ (fun u j => jobOf limits o cache u = .ok j) units jobs) :
    (pending jobs).length = units.countP (isMissed limits o cache) := by
  rw [length_pending]
  induction h with
  | nil => rfl
  | cons hj _ ih => rw [List.countP_cons, List.countP_cons, ih, result_isNone_of_jobOf hj]

/-- The entry of a unit whose analysis ended as given. -/
def entryOf (u : SourceUnit) : Except AnalysisError (List FunctionRecord) → FileFunctions
  | .ok records => resultOf u records
  | .error e => { path := u.path, errors := [e.message] }

/-- The job with the entry that an outcome gives it. -/
def Job.settle (j : Job) (r : Except AnalysisError (List FunctionRecord)) : Job :=
  { j with result := some (entryOf j.unit r) }

/-- The second job is what becomes of the first: the same, if it has a result, and else
one with what came back of its own analysis. -/
def Settles (machine : Machine) (analyzer : Analyzer) (j j' : Job) : Prop :=
  if j.result.isSome then j' = j
  else ∃ r, CanGive (analyzer j.unit.content j.language) r ∧ j' = j.settle (machine.handOver r)

/-- The jobs after workers have finished at the given places. -/
def Worked (machine : Machine) (analyzer : Analyzer) (order : List Nat) (jobs jobs' : List Job) :
    Prop :=
  jobs'.length = jobs.length ∧ ∀ k j, jobs[k]? = some j →
    if k ∈ order then
      ∃ r, CanGive (analyzer j.unit.content j.language) r ∧
        jobs'[k]? = some (j.settle (machine.handOver r))
    else jobs'[k]? = some j

/-- One worker fills its own place. -/
theorem ensures_finish (jobs : List Job) (i : Nat) :
    Ensures (finish machine analyzer jobs i) (Worked machine analyzer [i] jobs) := by
  unfold finish
  cases hi : jobs[i]? with
  | none =>
    refine (returns_pure jobs).ensures ⟨rfl, fun k j hk => ?_⟩
    have hne : k ≠ i := by
      rintro rfl
      rw [hi] at hk
      cases hk
    simp [hne, hk]
  | some j =>
    have hset : ∀ r, CanGive (analyzer j.unit.content j.language) r →
        Worked machine analyzer [i] jobs (jobs.set i (j.settle (machine.handOver r))) := by
      intro r hr
      refine ⟨List.length_set, fun k j' hk => ?_⟩
      by_cases hki : k = i
      · subst hki
        obtain rfl : j = j' := Option.some.inj (hi.symm.trans hk)
        have hlt := (List.getElem?_eq_some_iff.1 hi).1
        rw [if_pos (List.mem_singleton_self k)]
        exact ⟨r, hr, by rw [List.getElem?_set_self hlt]⟩
      · rw [if_neg (by simpa using hki), List.getElem?_set_ne (Ne.symm hki), hk]
    have hran : Ensures (analyzer j.unit.content j.language).run
        (CanGive (analyzer j.unit.content j.language)) := fun log => ⟨log, rfl⟩
    refine hran.bind fun r hr => ?_
    have hplaced := hset r hr
    cases hback : machine.handOver r with
    | ok functions =>
      rw [hback] at hplaced
      exact (returns_pure _).ensures hplaced
    | error e =>
      rw [hback] at hplaced
      exact ((returns_pure _).ensures hplaced).after

theorem Worked.cons {i : Nat} {order : List Nat} {jobs₁ jobs₂ : List Job}
    (h : Worked machine analyzer [i] jobs jobs₁) (h' : Worked machine analyzer order jobs₁ jobs₂) :
    Worked machine analyzer (i :: order) jobs jobs₂ := by
  refine ⟨h'.1.trans h.1, fun k j hk => ?_⟩
  have hfirst := h.2 k j hk
  by_cases hki : k = i
  · subst hki
    rw [if_pos (List.mem_singleton_self k)] at hfirst
    obtain ⟨r, hr, hk₁⟩ := hfirst
    have hrest := h'.2 k _ hk₁
    rw [if_pos List.mem_cons_self]
    by_cases hmem : k ∈ order
    · rw [if_pos hmem] at hrest
      exact hrest
    · rw [if_neg hmem] at hrest
      exact ⟨r, hr, hrest⟩
  · rw [if_neg (by simpa using hki)] at hfirst
    have hrest := h'.2 k j hfirst
    simpa [hki] using hrest

/-- However many workers finish, each fills its own place and leaves the others. -/
theorem ensures_foldlM_finish (order : List Nat) (jobs : List Job) :
    Ensures (order.foldlM (finish machine analyzer) jobs) (Worked machine analyzer order jobs) := by
  induction order generalizing jobs with
  | nil => exact (returns_pure jobs).ensures ⟨rfl, fun k j hk => by simpa using hk⟩
  | cons i order ih =>
    rw [List.foldlM_cons]
    refine (ensures_finish jobs i).bind fun jobs₁ h₁ log => ?_
    exact h₁.cons (ih jobs₁ log)

theorem Worked.settles {order : List Nat} {jobs' : List Job}
    (h : Worked machine analyzer order jobs jobs') (horder : order.Perm (pending jobs)) :
    List.Forall₂ (Settles machine analyzer) jobs jobs' := by
  rw [List.forall₂_iff_get]
  refine ⟨h.1.symm, fun k hk hk' => ?_⟩
  have hget : jobs[k]? = some (jobs.get ⟨k, hk⟩) := List.getElem?_eq_getElem hk
  have hget' : jobs'[k]? = some (jobs'.get ⟨k, hk'⟩) := List.getElem?_eq_getElem hk'
  have hplace := h.2 k _ hget
  have hpending : k ∈ order ↔ (jobs.get ⟨k, hk⟩).result = none := by
    rw [horder.mem_iff, mem_pending, hget]
    simp
  rw [hget'] at hplace
  unfold Settles
  by_cases hsome : (jobs.get ⟨k, hk⟩).result.isSome
  · have hnot : k ∉ order := by
      rw [hpending]
      exact Option.isSome_iff_ne_none.1 hsome
    rw [if_neg hnot] at hplace
    rw [if_pos hsome]
    exact Option.some.inj hplace
  · have hmem : k ∈ order := by
      rw [hpending]
      exact Option.not_isSome_iff_eq_none.1 hsome
    rw [if_pos hmem] at hplace
    rw [if_neg hsome]
    obtain ⟨r, hr, hset⟩ := hplace
    exact ⟨r, hr, Option.some.inj hset⟩

theorem ensures_runPool {order : List Nat} (horder : order.Perm (pending jobs))
    (settings : LogSettings) (workers : Int) :
    Ensures (runPool machine analyzer settings workers order jobs)
      (List.Forall₂ (Settles machine analyzer) jobs) := by
  unfold runPool
  refine Ensures.after (Ensures.after ?_)
  refine (ensures_foldlM_finish order jobs).bind fun jobs' hjobs' => ?_
  exact ((returns_pure jobs').ensures (hjobs'.settles horder)).after

/-- The entries that a unit may have: the cached records, or what its own analysis ended in, unless
the records that it found did not come back. -/
inductive IsEntry (machine : Machine) (analyzer : Analyzer) (o : Options) (cache : Option Cache)
    (u : SourceUnit) : FileFunctions → Prop
  | cached {records : List FunctionRecord}
      (h : cachedRecords machine.limits o cache u = .ok (some records)) :
      IsEntry machine analyzer o cache u { path := u.path, functions := records, errors := [] }
  | analyzed {records : List FunctionRecord}
      (missed : cachedRecords machine.limits o cache u = .ok none)
      (h : CanGive (analyzer u.content (languageFor o u)) (.ok records))
      (back : machine.lost records = none) :
      IsEntry machine analyzer o cache u { path := u.path, functions := records, errors := [] }
  | lost {records : List FunctionRecord} {message : Text}
      (missed : cachedRecords machine.limits o cache u = .ok none)
      (h : CanGive (analyzer u.content (languageFor o u)) (.ok records))
      (gone : machine.lost records = some message) :
      IsEntry machine analyzer o cache u { path := u.path, functions := [], errors := [message] }
  | failed {e : AnalysisError} (missed : cachedRecords machine.limits o cache u = .ok none)
      (h : CanGive (analyzer u.content (languageFor o u)) (.error e)) :
      IsEntry machine analyzer o cache u { path := u.path, functions := [], errors := [e.message] }

theorem IsEntry.path_eq {u : SourceUnit} {f : FileFunctions}
    (h : IsEntry machine analyzer o cache u f) : f.path = u.path := by
  cases h <;> rfl

theorem handOver_of_lost_eq_none {records : List FunctionRecord} (h : machine.lost records = none) :
    machine.handOver (.ok records) = .ok records := by
  simp [Machine.handOver, h, bind, Except.bind, pure, Except.pure]

theorem handOver_of_lost_eq_some {records : List FunctionRecord} {message : Text}
    (h : machine.lost records = some message) :
    machine.handOver (.ok records) = .error (.lost message) := by
  simp [Machine.handOver, h, bind, Except.bind, throw, throwThe, MonadExceptOf.throw]

theorem isEntry_of_canGive {u : SourceUnit} {r : Except AnalysisError (List FunctionRecord)}
    (missed : cachedRecords machine.limits o cache u = .ok none)
    (h : CanGive (analyzer u.content (languageFor o u)) r) :
    IsEntry machine analyzer o cache u (entryOf u (machine.handOver r)) := by
  cases r with
  | error e => exact .failed missed h
  | ok records =>
    cases hlost : machine.lost records with
    | none =>
      rw [handOver_of_lost_eq_none hlost]
      exact .analyzed missed h hlost
    | some message =>
      rw [handOver_of_lost_eq_some hlost]
      exact .lost missed h hlost

/-- An analysis whose outcome does not depend on what was done before decides the entry. -/
theorem IsEntry.eq_entryOf {u : SourceUnit} {f : FileFunctions}
    (h : IsEntry machine analyzer o cache u f)
    (missed : cachedRecords machine.limits o cache u = .ok none)
    {r : Except AnalysisError (List FunctionRecord)}
    (hr : Gives (analyzer u.content (languageFor o u)) r) :
    f = entryOf u (machine.handOver r) := by
  cases h with
  | cached h =>
    rw [missed] at h
    cases h
  | analyzed _ h back =>
    obtain rfl := hr.eq_of_canGive h
    rw [handOver_of_lost_eq_none back]
    rfl
  | lost _ h gone =>
    obtain rfl := hr.eq_of_canGive h
    rw [handOver_of_lost_eq_some gone]
    rfl
  | failed _ h =>
    obtain rfl := hr.eq_of_canGive h
    rfl

theorem exists_entry {u : SourceUnit} {j j' : Job} (h : jobOf machine.limits o cache u = .ok j)
    (hsettles : Settles machine analyzer j j') :
    ∃ f, j'.result = some f ∧ IsEntry machine analyzer o cache u f := by
  obtain ⟨records, hrecords, rfl⟩ := map_eq_ok_iff.1 h
  cases records with
  | some records =>
    obtain rfl : j' = _ := hsettles
    exact ⟨_, rfl, .cached hrecords⟩
  | none =>
    obtain ⟨r, hr, rfl⟩ : ∃ r, _ ∧ j' = _ := hsettles
    exact ⟨_, rfl, isEntry_of_canGive hrecords hr⟩

/-- No place stays empty, so that the results are the entries of all units. -/
theorem exists_entries {jobs' : List Job}
    (h : List.Forall₂ (fun u j => jobOf machine.limits o cache u = .ok j) units jobs)
    (hsettles : List.Forall₂ (Settles machine analyzer) jobs jobs') :
    ∃ results, jobs'.map (·.result) = results.map some ∧
      List.Forall₂ (IsEntry machine analyzer o cache) units results := by
  induction h generalizing jobs' with
  | nil =>
    cases hsettles
    exact ⟨[], rfl, .nil⟩
  | cons hj _ ih =>
    cases hsettles with
    | cons hfirst hrest =>
      obtain ⟨f, hf, hentry⟩ := exists_entry hj hfirst
      obtain ⟨results, hresults, hentries⟩ := ih hrest
      refine ⟨f :: results, ?_, .cons hentry hentries⟩
      rw [List.map_cons, List.map_cons, hf, hresults]

theorem filterMap_result {results : List FileFunctions}
    (h : jobs.map (·.result) = results.map some) : jobs.filterMap (·.result) = results := by
  have hflat := congrArg (List.filterMap id) h
  rwa [List.filterMap_map, List.filterMap_map, Function.id_comp, Function.id_comp,
    List.filterMap_some] at hflat

/-- The result at a place is to be stored, and nested too deep for it. -/
def DeepAt (limits : Limits) (jobs : List Job) (i : Nat) : Prop :=
  ∃ f, jobs[i]?.bind (·.result) = some f ∧ f.errors = [] ∧
    limits.data < FunctionRecord.depthAll f.functions

theorem storeAt_of_deepAt {i : Nat} (h : DeepAt limits jobs i) (c : Cache) :
    storeAt limits jobs c i = .error (.unstored (.nesting .data) c) := by
  obtain ⟨f, hf, hsound, hdeep⟩ := h
  obtain ⟨⟨u, language, result⟩, hj, rfl⟩ := Option.bind_eq_some_iff.1 hf
  unfold storeAt
  rw [hj]
  simp [hsound, Cache.put_of_deep hdeep, Except.mapError]

/-- Unless a result is nested too deep, storing fails only where looking up does. -/
theorem exists_storeAt_eq_ok {i : Nat}
    (hkeys : ∀ j ∈ jobs, ∃ key, contentKey j.unit.content j.language = .ok key)
    (h : ¬ DeepAt limits jobs i) (c : Cache) : ∃ c', storeAt limits jobs c i = .ok c' := by
  unfold storeAt
  split
  · next u language result hi =>
    obtain ⟨key, hkey⟩ := hkeys _ (List.mem_of_getElem? hi)
    by_cases hsound : result.errors.isEmpty
    · have hdepth : FunctionRecord.depthAll result.functions ≤ limits.data := by
        by_contra hdeep
        refine h ⟨result, ?_, List.isEmpty_iff.1 hsound, Nat.lt_of_not_le hdeep⟩
        rw [hi]
        rfl
      rw [if_pos hsound]
      exact ⟨_, mapError_eq_ok_iff.2 (Cache.put_eq_ok_iff.2 ⟨hdepth, key, hkey, rfl⟩)⟩
    · rw [if_neg hsound]
      exact ⟨c, rfl⟩
  · exact ⟨c, rfl⟩

/-- Storing ends at the first result that is nested too deep, and leaves the cache with those
before it. -/
theorem store_cases
    (hkeys : ∀ j ∈ jobs, ∃ key, contentKey j.unit.content j.language = .ok key)
    (places : List Nat) (c : Cache) :
    (∃ c', store limits jobs places c = .ok c' ∧ ∀ i ∈ places, ¬ DeepAt limits jobs i) ∨
    ∃ before i after left, places = before ++ i :: after ∧ DeepAt limits jobs i ∧
      store limits jobs before c = .ok left ∧
      store limits jobs places c = .error (.unstored (.nesting .data) left) := by
  induction places generalizing c with
  | nil => exact .inl ⟨c, rfl, by simp⟩
  | cons i places ih =>
    by_cases hdeep : DeepAt limits jobs i
    · refine .inr ⟨[], i, places, c, rfl, hdeep, rfl, ?_⟩
      rw [store, List.foldlM_cons, storeAt_of_deepAt hdeep]
      rfl
    · obtain ⟨c₁, hfirst⟩ := exists_storeAt_eq_ok hkeys hdeep c
      have hstep (more : List Nat) :
          store limits jobs (i :: more) c = store limits jobs more c₁ := by
        rw [store, List.foldlM_cons, hfirst]
        rfl
      rcases ih c₁ with ⟨c', hrest, hshallow⟩ | ⟨before, k, after, left, rfl, hk, hbefore, hrest⟩
      · exact .inl ⟨c', (hstep places).trans hrest, List.forall_mem_cons.2 ⟨hdeep, hshallow⟩⟩
      · exact .inr ⟨i :: before, k, after, left, rfl, hk, (hstep before).trans hbefore,
          (hstep _).trans hrest⟩

theorem exists_contentKey {c : Cache} {u : SourceUnit} {j : Job}
    (h : jobOf limits o (some c) u = .ok j) :
    ∃ key, contentKey u.content (languageFor o u) = .ok key := by
  obtain ⟨records, hrecords, -⟩ := map_eq_ok_iff.1 h
  obtain ⟨key, hkey, -⟩ := map_eq_ok_iff.1 hrecords
  exact ⟨key, hkey⟩

/-- What is settled is still the job of its unit, so that it has a key. -/
theorem exists_contentKey_of_settles {c : Cache} {jobs' : List Job}
    (h : List.Forall₂ (fun u j => jobOf limits o (some c) u = .ok j) units jobs)
    (hsettles : List.Forall₂ (Settles machine analyzer) jobs jobs') :
    ∀ j ∈ jobs', ∃ key, contentKey j.unit.content j.language = .ok key := by
  induction h generalizing jobs' with
  | nil =>
    cases hsettles
    simp
  | @cons u j units jobs hj _ ih =>
    cases hsettles with
    | @cons _ j' _ jobs' hfirst hrest =>
      have hkey := exists_contentKey hj
      obtain ⟨records, -, rfl⟩ := map_eq_ok_iff.1 hj
      refine List.forall_mem_cons.2 ⟨?_, ih hrest⟩
      unfold Settles at hfirst
      split at hfirst
      · rw [hfirst]
        exact hkey
      · obtain ⟨r, -, rfl⟩ := hfirst
        exact hkey

/-- An entry is to be stored, and nested too deep for it. -/
structure Unstorable (limits : Limits) (o : Options) (cache : Option Cache) (u : SourceUnit)
    (f : FileFunctions) : Prop where
  stored : cache.isSome
  missed : cachedRecords limits o cache u = .ok none
  errors : f.errors = []
  deep : limits.data < FunctionRecord.depthAll f.functions

theorem jobOf_eq_pending_iff {u : SourceUnit} {j : Job} :
    (jobOf limits o cache u = .ok j ∧ j.result = none) ↔
      cachedRecords limits o cache u = .ok none ∧ j = ⟨u, languageFor o u, none⟩ := by
  constructor
  · rintro ⟨hj, hnone⟩
    obtain ⟨records, hrecords, rfl⟩ := map_eq_ok_iff.1 hj
    obtain rfl : records = none := by simpa using hnone
    exact ⟨hrecords, rfl⟩
  · rintro ⟨hmissed, rfl⟩
    exact ⟨map_eq_ok_iff.2 ⟨none, hmissed, rfl⟩, rfl⟩

theorem isMissed_iff {u : SourceUnit} :
    isMissed limits o cache u = true ↔ cachedRecords limits o cache u = .ok none := by
  unfold isMissed
  split <;> simp_all

theorem mem_pending_iff_missed
    (h : List.Forall₂ (fun u j => jobOf limits o cache u = .ok j) units jobs) {i : Nat} :
    i ∈ pending jobs ↔ ∃ u, units[i]? = some u ∧ cachedRecords limits o cache u = .ok none := by
  rw [mem_pending]
  induction h generalizing i with
  | nil => simp
  | @cons u j units jobs hj _ ih =>
    cases i with
    | zero =>
      have hnone : j.result = none ↔ cachedRecords limits o cache u = .ok none := by
        rw [← Option.isNone_iff_eq_none, result_isNone_of_jobOf hj, isMissed_iff]
      simpa using hnone
    | succ i => simpa using ih

theorem unstorable_iff {c : Cache} {jobs' : List Job} {results : List FileFunctions}
    (h : List.Forall₂ (fun u j => jobOf limits o (some c) u = .ok j) units jobs)
    (hresults : jobs'.map (·.result) = results.map some) {i : Nat} {u : SourceUnit}
    {f : FileFunctions} (hu : units[i]? = some u) (hf : results[i]? = some f) :
    Unstorable limits o (some c) u f ↔ i ∈ pending jobs ∧ DeepAt limits jobs' i := by
  have hplace : jobs'[i]?.bind (·.result) = some f := by
    have hmap : jobs'[i]?.map (·.result) = some (some f) := by
      rw [← List.getElem?_map, hresults, List.getElem?_map, hf]
      rfl
    obtain ⟨j, hj, hjf⟩ := Option.map_eq_some_iff.1 hmap
    rw [hj]
    exact hjf
  rw [mem_pending_iff_missed h]
  constructor
  · intro hunstorable
    exact ⟨⟨u, hu, hunstorable.missed⟩, f, hplace, hunstorable.errors, hunstorable.deep⟩
  · rintro ⟨⟨v, hv, missed⟩, g, hg, errors, deep⟩
    obtain rfl : u = v := Option.some.inj (hu.symm.trans hv)
    obtain rfl : f = g := Option.some.inj (hplace.symm.trans hg)
    exact ⟨rfl, missed, errors, deep⟩

/-- The batch has the entries of all units, or one that is to be stored is nested too deep. -/
def Fills (machine : Machine) (analyzer : Analyzer) (o : Options) (cache : Option Cache)
    (units : List SourceUnit) (r : Except BatchError (List FileFunctions × Option Cache)) : Prop :=
  ∃ results, List.Forall₂ (IsEntry machine analyzer o cache) units results ∧
    ((∃ cache', r = .ok (results, cache') ∧ ∀ (i : Nat) u f, units[i]? = some u →
        results[i]? = some f → ¬ Unstorable machine.limits o cache u f) ∨
      ∃ left, r = .error (.unstored (.nesting .data) left) ∧ ∃ (i : Nat) (u : _) (f : _),
        units[i]? = some u ∧ results[i]? = some f ∧ Unstorable machine.limits o cache u f)

theorem fills_of_settles {c : Cache} {jobs' : List Job}
    (h : List.Forall₂ (fun u j => jobOf machine.limits o (some c) u = .ok j) units jobs)
    (hsettles : List.Forall₂ (Settles machine analyzer) jobs jobs') :
    Fills machine analyzer o (some c) units
      ((store machine.limits jobs' (pending jobs) c).map fun c' =>
        (jobs'.filterMap (·.result), some c')) := by
  obtain ⟨results, hresults, hentries⟩ := exists_entries h hsettles
  have hkeys := exists_contentKey_of_settles h hsettles
  rw [filterMap_result hresults]
  refine ⟨results, hentries, ?_⟩
  rcases store_cases hkeys (pending jobs) c with
    ⟨c', hstore, hshallow⟩ | ⟨before, i, after, left, hplaces, hdeep, -, hstore⟩
  · refine .inl ⟨some c', by rw [hstore]; rfl, fun i u f hu hf hunstorable => ?_⟩
    obtain ⟨hpending, hdeep⟩ := (unstorable_iff h hresults hu hf).1 hunstorable
    exact hshallow i hpending hdeep
  · have hpending : i ∈ pending jobs := by simp [hplaces]
    obtain ⟨u, hu, -⟩ := (mem_pending_iff_missed h).1 hpending
    obtain ⟨hlt, -⟩ := List.getElem?_eq_some_iff.1 hu
    have hf : results[i]? = some (results.get ⟨i, hentries.length_eq ▸ hlt⟩) :=
      List.getElem?_eq_getElem _
    exact .inr ⟨left, by rw [hstore]; rfl, i, u, _, hu, hf,
      (unstorable_iff h hresults hu hf).2 ⟨hpending, hdeep⟩⟩

/-- A batch that goes to a pool fills all places. -/
theorem ensures_run_of_usesPool (settings : LogSettings)
    (found : ∀ u ∈ units, ∃ records, cachedRecords machine.limits o cache u = .ok records)
    (pooled : UsesPool machine o cache units) :
    Ensures (run machine analyzer settings o cache units).run
      (Fills machine analyzer o cache units) := by
  obtain ⟨jobs, hjobs⟩ := exists_jobs_iff.2 found
  have hlook : Gives (units.mapM (lookUp machine.limits o cache)) (.ok jobs) :=
    hjobs ▸ Gives.mapM fun u _ => gives_lookUp machine.limits o cache u
  have hof := mapM_eq_ok_iff.1 hjobs
  have hpool : Yields (complete machine analyzer settings (o.workers.getD machine.processors) jobs)
      (List.Forall₂ (Settles machine analyzer) jobs) := by
    unfold complete
    dsimp only
    rw [if_pos ⟨pooled.1, by rw [length_pending_of_jobOf hof]; exact pooled.2⟩]
    exact yields_logged (ensures_runPool (machine.finishes _) settings _)
  refine (hlook.adapt BatchError.encoding).yields (P := (· = jobs)) rfl |>.ensures_bind ?_
  rintro jobs rfl
  cases cache with
  | none =>
    refine hpool.ensures_bind fun jobs' hsettles => ?_
    obtain ⟨results, hresults, hentries⟩ := exists_entries hof hsettles
    dsimp only
    rw [filterMap_result hresults]
    refine Returns.ensures (gives_pure _) ⟨results, hentries, .inl ⟨none, rfl, ?_⟩⟩
    intro i u f _ _ hunstorable
    cases hunstorable.stored
  | some c =>
    refine (gives_logged (returns_unit _)).yields (P := fun _ => True) trivial |>.ensures_bind
      fun _ _ => ?_
    refine hpool.ensures_bind fun jobs' hsettles => ?_
    have hreturned : Gives (do
        let c' ← (store machine.limits jobs' (pending jobs) c : Except BatchError Cache)
        return (jobs'.filterMap (·.result), some c') : ExceptT BatchError Logged _)
        ((store machine.limits jobs' (pending jobs) c).map fun c' =>
          (jobs'.filterMap (·.result), some c')) := by
      refine (gives_except _).bind_gives fun c' _ => gives_pure _
    exact Returns.ensures hreturned (fills_of_settles hof hsettles)

theorem fills_outcome (machine : Machine) (analyzer : Analyzer) (settings : LogSettings)
    {values : List Value} (valid : checkUnits values = .ok units)
    (found : ∀ u ∈ units, ∃ records, cachedRecords machine.limits o cache u = .ok records)
    (pooled : UsesPool machine o cache units) :
    Fills machine analyzer o cache units
      (outcome (analyzeBatchBy machine analyzer settings o cache values).run).1 := by
  have hunits : Gives (liftM (checkUnits values) : ExceptT BatchError Logged _) (.ok units) :=
    valid ▸ gives_except _
  refine (hunits.yields (P := (· = units)) rfl).ensures_bind ?_ []
  rintro _ rfl
  exact ensures_run_of_usesPool settings found pooled

end
theorem checkUnits_dump (units : List SourceUnit) :
    checkUnits (units.map SourceUnit.dump) = .ok units := by
  rw [checkUnits, mapM_eq_ok_iff, List.forall₂_map_left_iff]
  exact List.forall₂_same.2 fun u _ => rfl

namespace Sample

def damaged : SourceUnit := ⟨"damaged.ts", "damaged"⟩

def sound : SourceUnit := ⟨"sound.ts", "sound"⟩

/-- Just enough units for a pool, one of which cannot be analyzed. -/
def units : List SourceUnit := damaged :: List.replicate 49 sound

def analyzer : Analyzer := fun content _ =>
  if content = damaged.content then throw (.text .malformed "malformed") else return []

def analysis : Text → Text → Except AnalysisError (List FunctionRecord) := fun content _ =>
  if content = damaged.content then .error (.text .malformed "malformed") else .ok []

theorem gives_analyzer (content language : Text) :
    Gives (analyzer content language) (analysis content language) := by
  unfold analyzer analysis
  split
  · exact gives_throw _
  · exact gives_pure _

def options : Options := { workers := some 2 }

/-- Workers finish in reverse. -/
def machine : Machine := { completion := List.reverse, finishes := List.reverse_perm }

def emptyCache : Cache := { directory := .ofText "cache" }

theorem cachedRecords_empty {u : SourceUnit} {key : Text}
    (h : contentKey u.content (languageFor options u) = .ok key) :
    cachedRecords {} options (some emptyCache) u = .ok none := by
  rw [cachedRecords, Cache.found, h]
  rfl

theorem cachedRecords_damaged : cachedRecords {} options (some emptyCache) damaged = .ok none :=
  cachedRecords_empty rfl

theorem cachedRecords_sound : cachedRecords {} options (some emptyCache) sound = .ok none :=
  cachedRecords_empty rfl

theorem cachedRecords_units {u : SourceUnit} (hu : u ∈ units) :
    cachedRecords {} options (some emptyCache) u = .ok none := by
  rcases List.mem_cons.1 hu with rfl | hu
  · exact cachedRecords_damaged
  · rw [List.eq_of_mem_replicate hu]
    exact cachedRecords_sound

theorem found_units :
    ∀ u ∈ units, ∃ records, cachedRecords {} options (some emptyCache) u = .ok records :=
  fun _ hu => ⟨none, cachedRecords_units hu⟩

theorem usesPool_units {m : Machine} (limits : m.limits = {}) :
    UsesPool m options (some emptyCache) units := by
  have hmissed : units.countP (isMissed m.limits options (some emptyCache)) = units.length := by
    rw [List.countP_eq_length, limits]
    exact fun u hu => isMissed_iff.2 (cachedRecords_units hu)
  refine ⟨(by decide : (1 : Int) < 2), ?_⟩
  rw [hmissed]
  decide

theorem functions_entryOf_analysis (u : SourceUnit) (language : Text) :
    (entryOf u (machine.handOver (analysis u.content language))).functions = [] := by
  unfold analysis
  split <;> rfl

/-- Finds too much in one source, and nothing in all others. -/
def deepAnalyzer : Analyzer := fun content _ =>
  if content = damaged.content then return [.ofArrows 255] else return []

end Sample

end Batch

end FunctionInventory
