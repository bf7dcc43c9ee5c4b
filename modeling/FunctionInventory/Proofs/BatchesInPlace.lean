import FunctionInventory.Proofs.StoredAnalyses

/-!
# Batches that change their cache in place

A batch looks up all its units before it stores a result, and all analyses are over by then. So
although results are stored one after the other, in the cache at hand, a batch ends as it does
with a cache that is passed on; and where it fails, the cache is as it was, unless it fails while
results are stored.
-/
namespace FunctionInventory

open Logged

/-- A computation on a cache that it changes in place: what it changed before a failure stays. -/
abbrev OnCache (ε : Type) := ExceptT ε (StateT Cache Logged)

namespace OnCache

variable {ε ε' α β : Type}

/-- A computation that does not change the cache. -/
def reading (f : Cache → ExceptT ε Logged α) : OnCache ε α :=
  ExceptT.mk fun c => do return (← (f c).run, c)

/-- One change of the cache, which stays the same if the change fails. -/
def changing (f : Cache → Except ε Cache) : OnCache ε Unit :=
  ExceptT.mk fun c => match f c with
    | .ok c' => return (.ok (), c')
    | .error e => return (.error e, c)

/-- With a cache, the computation has an outcome and leaves a cache, whatever is in the log
before. -/
def Leaves (x : OnCache ε α) (c : Cache) (r : Except ε α) (c' : Cache) : Prop :=
  Returns (x.run.run c) (r, c')

theorem leaves_pure (a : α) (c : Cache) : Leaves (pure a : OnCache ε α) c (.ok a) c :=
  returns_pure _

theorem leaves_except (x : Except ε α) (c : Cache) : Leaves (liftM x : OnCache ε α) c x c :=
  returns_pure _

theorem leaves_note (level : LogLevel) (text : Text) (c : Cache) :
    Leaves (liftM (Logged.note level text) : OnCache ε Unit) c (.ok ()) c :=
  fun _ => rfl

theorem Leaves.bind_ok {x : OnCache ε α} {f : α → OnCache ε β} {a : α} {r : Except ε β}
    {c c₁ c' : Cache} (hx : Leaves x c (.ok a) c₁) (hf : Leaves (f a) c₁ r c') :
    Leaves (x >>= f) c r c' :=
  Returns.bind (f := fun p : Except ε α × Cache => (ExceptT.bindCont f p.1).run p.2) hx hf

theorem Leaves.bind_error {x : OnCache ε α} {f : α → OnCache ε β} {e : ε} {c c' : Cache}
    (hx : Leaves x c (.error e) c') : Leaves (x >>= f) c (.error e) c' :=
  Returns.bind (f := fun p : Except ε α × Cache => (ExceptT.bindCont f p.1).run p.2) hx
    (returns_pure _)

theorem Leaves.adapt {x : OnCache ε α} {r : Except ε α} {c c' : Cache} (h : Leaves x c r c')
    (f : ε → ε') : Leaves (x.adapt f) c (r.mapError f) c' :=
  fun log => congrArg (fun p => (p.1.mapError f, p.2)) (h log)

theorem leaves_reading {f : Cache → ExceptT ε Logged α} {c : Cache} {r : Except ε α}
    (h : Gives (f c) r) : Leaves (reading f) c r c :=
  Returns.bind h (returns_pure _)

theorem leaves_changing {f : Cache → Except ε Cache} {c c' : Cache} (h : f c = .ok c') :
    Leaves (changing f) c (.ok ()) c' := by
  have hrun : (changing f).run.run c = pure (.ok (), c') := by
    rw [changing, ExceptT.run_mk, StateT.run, h]
  rw [Leaves, hrun]
  exact returns_pure _

theorem leaves_changing_error {f : Cache → Except ε Cache} {c : Cache} {e : ε}
    (h : f c = .error e) : Leaves (changing f) c (.error e) c := by
  have hrun : (changing f).run.run c = pure (.error e, c) := by
    rw [changing, ExceptT.run_mk, StateT.run, h]
  rw [Leaves, hrun]
  exact returns_pure _

/-- Steps that both leave the cache alone do so together. -/
theorem Leaves.bind_same {x : OnCache ε α} {f : α → OnCache ε β} {r : Except ε α}
    {g : α → Except ε β} {c : Cache} (hx : Leaves x c r c)
    (hf : ∀ a, r = .ok a → Leaves (f a) c (g a) c) : Leaves (x >>= f) c (r >>= g) c := by
  cases r with
  | error e => exact hx.bind_error
  | ok a => exact hx.bind_ok (hf a rfl)

/-- Reading for each item of a list does not change the cache. -/
theorem leaves_mapM_reading {f : α → Cache → ExceptT ε Logged β} {g : α → Except ε β} {c : Cache}
    {as : List α} (h : ∀ a ∈ as, Gives (f a c) (g a)) :
    Leaves (as.mapM fun a => reading (f a)) c (as.mapM g) c := by
  induction as with
  | nil => exact leaves_pure [] c
  | cons a as ih =>
    obtain ⟨hfirst, hrest⟩ := List.forall_mem_cons.1 h
    have hread : Leaves (reading (f a)) c (g a) c := leaves_reading hfirst
    rw [List.mapM_cons, List.mapM_cons]
    exact hread.bind_same fun b _ => (ih hrest).bind_same fun bs _ => leaves_pure (b :: bs) c

end OnCache

namespace Batch

open OnCache

/-- Stores the results of the jobs at the given places one after the other. -/
def storeInPlace (limits : Limits) (jobs : List Job) (places : List Nat) :
    OnCache BatchError Unit :=
  places.forM fun i => changing fun c => storeAt limits jobs c i

/-- Analyzes units with a cache that is changed in place. -/
def runInPlace (machine : Machine) (analyzer : Analyzer) (settings : LogSettings) (o : Options)
    (units : List SourceUnit) : OnCache BatchError (List FileFunctions) := do
  let jobs ← (units.mapM fun u => reading fun c => lookUp machine.limits o (some c) u).adapt
    BatchError.encoding
  let places := pending jobs
  Logged.note .info (("  analyze_batch: " ++ toString (units.length - places.length) ++
    " cached, " ++ toString places.length ++ " to analyze" : String) : Text)
  let jobs ← reading fun _ =>
    complete machine analyzer settings (o.workers.getD machine.processors) jobs
  storeInPlace machine.limits jobs places
  return jobs.filterMap (·.result)

/-- Analyzes units that are given as data, with a cache that is changed in place. -/
def analyzeInPlace (machine : Machine) (analyzer : Analyzer) (settings : LogSettings)
    (o : Options) (values : List Value) : OnCache BatchError (List FileFunctions) := do
  runInPlace machine analyzer settings o (← (checkUnits values : Except _ _))

section

variable {machine : Machine} {limits : Limits} {analyzer : Analyzer}
  {analysis : Text → Text → Except AnalysisError (List FunctionRecord)}

theorem leaves_lookUps (limits : Limits) (o : Options) (c : Cache) (units : List SourceUnit) :
    Leaves (units.mapM fun u => reading fun c => lookUp limits o (some c) u) c
      (units.mapM (jobOf limits o (some c))) c :=
  leaves_mapM_reading fun u _ => gives_lookUp limits o (some c) u

/-- A result that cannot be stored leaves the cache as it is. -/
theorem exists_cause_of_storeAt {jobs : List Job} {c : Cache} {i : Nat} {e : BatchError}
    (h : storeAt limits jobs c i = .error e) : ∃ cause, e = .unstored cause c := by
  unfold storeAt at h
  split at h
  · split at h
    · obtain ⟨cause, -, rfl⟩ := mapError_eq_error_iff.1 h
      exact ⟨cause, rfl⟩
    · cases h
  · cases h

theorem exists_left_of_store {jobs : List Job} {places : List Nat} {c : Cache} {e : BatchError}
    (h : store limits jobs places c = .error e) : ∃ cause left, e = .unstored cause left := by
  induction places generalizing c with
  | nil => cases h
  | cons i places ih =>
    rw [store, List.foldlM_cons] at h
    cases hfirst : storeAt limits jobs c i with
    | error e' =>
      rw [hfirst] at h
      cases h
      exact (exists_cause_of_storeAt hfirst).imp fun _ h => ⟨c, h⟩
    | ok c₁ =>
      rw [hfirst] at h
      exact ih h

/-- What storing leaves, whether it comes to an end or not. -/
def leftByStore (c : Cache) : Except BatchError Cache → Cache
  | .ok c' => c'
  | .error e => e.left c

theorem leaves_storeInPlace (limits : Limits) (jobs : List Job) (places : List Nat) (c : Cache) :
    Leaves (storeInPlace limits jobs places) c ((store limits jobs places c).map fun _ => ())
      (leftByStore c (store limits jobs places c)) := by
  induction places generalizing c with
  | nil => exact leaves_pure () c
  | cons i places ih =>
    have hstore : store limits jobs (i :: places) c =
        storeAt limits jobs c i >>= store limits jobs places := List.foldlM_cons
    rw [hstore]
    cases hfirst : storeAt limits jobs c i with
    | error e =>
      obtain ⟨cause, rfl⟩ := exists_cause_of_storeAt hfirst
      exact (leaves_changing_error hfirst).bind_error
    | ok c₁ =>
      have hleft : leftByStore c (store limits jobs places c₁) =
          leftByStore c₁ (store limits jobs places c₁) := by
        cases hrest : store limits jobs places c₁ with
        | ok c' => rfl
        | error e =>
          obtain ⟨cause, left, rfl⟩ := exists_left_of_store hrest
          rfl
      change Leaves _ c _ (leftByStore c (store limits jobs places c₁))
      rw [hleft]
      exact (leaves_changing hfirst).bind_ok (ih c₁)

/-- In place, a batch ends as it does with a cache that is passed on, and it leaves the cache that
this one does. -/
theorem leaves_runInPlace (deterministic : ∀ content language,
      Gives (analyzer content language) (analysis content language)) (machine : Machine)
    (settings : LogSettings) (o : Options) (c : Cache) (units : List SourceUnit) :
    Leaves (runInPlace machine analyzer settings o units) c
      ((ran machine analysis o (some c) units).map (·.1))
      (leftIn c (ran machine analysis o (some c) units)) := by
  have hlook := (leaves_lookUps machine.limits o c units).adapt BatchError.encoding
  cases hjobs : units.mapM (jobOf machine.limits o (some c)) with
  | error e =>
    rw [hjobs] at hlook
    rw [ran_of_lookUp_error hjobs]
    exact hlook.bind_error
  | ok jobs =>
    rw [hjobs] at hlook
    have hcomplete : Leaves (reading fun _ => complete machine analyzer settings
        (o.workers.getD machine.processors) jobs) c ((completed machine analysis
          (o.workers.getD machine.processors) jobs).mapError BatchError.analysis) c :=
      leaves_reading (gives_complete_completed deterministic settings _ jobs)
    have hran : ran machine analysis o (some c) units =
        (completed machine analysis (o.workers.getD machine.processors) jobs).mapError
          BatchError.analysis >>= returned machine.limits (some c) (pending jobs) := by
      rw [ran, hjobs]
      rfl
    rw [hran]
    cases hdone : completed machine analysis (o.workers.getD machine.processors) jobs with
    | error e =>
      rw [hdone] at hcomplete
      exact hlook.bind_ok ((leaves_note _ _ c).bind_ok hcomplete.bind_error)
    | ok done =>
      rw [hdone] at hcomplete
      have hstored := leaves_storeInPlace machine.limits done (pending jobs) c
      refine hlook.bind_ok ((leaves_note _ _ c).bind_ok (hcomplete.bind_ok ?_))
      change Leaves _ c ((returned machine.limits (some c) (pending jobs) done).map (·.1))
        (leftIn c (returned machine.limits (some c) (pending jobs) done))
      rw [returned]
      cases hstore : store machine.limits done (pending jobs) c with
      | error e =>
        rw [hstore] at hstored
        exact hstored.bind_error
      | ok c' =>
        rw [hstore] at hstored
        exact hstored.bind_ok (leaves_pure _ c')

/-- The same for units that are given as data. -/
theorem leaves_analyzeInPlace (deterministic : ∀ content language,
      Gives (analyzer content language) (analysis content language)) (machine : Machine)
    (settings : LogSettings) (o : Options) (c : Cache) (values : List Value) :
    Leaves (analyzeInPlace machine analyzer settings o values) c
      ((checkUnits values >>= ran machine analysis o (some c)).map (·.1))
      (leftIn c (checkUnits values >>= ran machine analysis o (some c))) := by
  unfold analyzeInPlace
  cases hunits : checkUnits values with
  | error e =>
    have hleaves : Leaves (analyzeInPlace machine analyzer settings o values) c (.error e) c := by
      rw [analyzeInPlace, hunits]
      exact (leaves_except (.error e) c).bind_error
    rw [analyzeInPlace, hunits] at hleaves
    change Leaves _ c (.error e) (e.left c)
    rwa [left_of_checkUnits hunits]
  | ok units =>
    exact (leaves_except (.ok units) c).bind_ok
      (leaves_runInPlace deterministic machine settings o c units)

end

end Batch

end FunctionInventory
