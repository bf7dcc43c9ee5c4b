import FunctionInventory.Analysis
import FunctionInventory.Cache
import FunctionInventory.Progress
import FunctionInventory.Record.Validation

/-!
# Analyzing many sources

The sources of a batch are analyzed independently of each other, and the results are in
the order of the sources. Sources whose results are cached are not analyzed again. Large
batches go to a pool of workers, which finish in any order; there, a source that cannot
be analyzed, or whose functions do not come back from its worker, has a result that says why,
while otherwise a source that cannot be analyzed ends the batch.
-/
namespace FunctionInventory

/-- Why a batch has no results. -/
inductive BatchError where
  | invalidUnit (findings : List Finding)
  | encoding (e : EncodingError)
  | analysis (e : AnalysisError)
  /-- Not all results can be stored; `left` is the cache with those that were. -/
  | unstored (cause : StoreError) (left : Cache)
deriving Inhabited

/-- What is left of a cache by a batch that ends so. -/
def BatchError.left (c : Cache) : BatchError → Cache
  | unstored _ left => left
  | _ => c

theorem Machine.perm_inOrder (places : List Nat) : (id places).Perm places := .rfl

/-- What batches are run on. -/
structure Machine where
  /-- The number of workers if none is asked for. -/
  processors : Int := 4
  /-- The order in which workers finish what is at the given places. -/
  completion : List Nat → List Nat := id
  finishes : ∀ places, (completion places).Perm places := by exact Machine.perm_inOrder
  /-- Why records do not come back from the worker that found them, if so. -/
  lost : List FunctionRecord → Option Text := fun _ => none
  limits : Limits := {}

instance : Inhabited Machine := ⟨{}⟩

/-- What comes back from a worker. -/
def Machine.handOver (m : Machine) (r : Except AnalysisError (List FunctionRecord)) :
    Except AnalysisError (List FunctionRecord) := do
  let records ← r
  match m.lost records with
  | none => return records
  | some message => throw (.lost message)

namespace Batch

/-- Batches with fewer sources to analyze are not worth a pool. -/
def parallelThreshold : Nat := 50

structure Options where
  workers : Option Int := none
  language : Option Text := none
deriving Inhabited

/-- The language of a unit: the one asked for, or that of its path. -/
def languageFor (o : Options) (u : SourceUnit) : Text :=
  match o.language with
  | some l => if l.isEmpty then byPath else l
  | none => byPath
where
  byPath : Text := (Language.ofPath (.ofText u.path)).name

/-- A unit on its way: its language, and its result once there is one. -/
structure Job where
  unit : SourceUnit
  language : Text
  result : Option FileFunctions
deriving Inhabited

/-- The result of a unit with the given functions. -/
def resultOf (u : SourceUnit) (functions : List FunctionRecord) : FileFunctions :=
  { path := u.path, functions }

/-- Looks a unit up in the cache. -/
def lookUp (limits : Limits) (o : Options) (cache : Option Cache) (u : SourceUnit) :
    ExceptT EncodingError Logged Job := do
  let language := languageFor o u
  match cache with
  | none => return ⟨u, language, none⟩
  | some c => return ⟨u, language, (← c.get limits u.content language).map (resultOf u)⟩

/-- The places of the jobs that have no result yet. -/
def pending (jobs : List Job) : List Nat :=
  (List.range jobs.length).filter fun i => (jobs[i]?.map (·.result.isNone)).getD false

/-- Analyzes the jobs without a result one after the other. -/
def runInTurn (analyzer : Analyzer) : List Job → ExceptT AnalysisError Logged (List Job)
  | [] => return []
  | j :: js => do
    let j ← match j.result with
      | some _ => pure j
      | none => pure { j with result := some (resultOf j.unit (← analyzer j.unit.content j.language)) }
    return j :: (← runInTurn analyzer js)

/-- One worker has finished: the result is put in its place. -/
def finish (machine : Machine) (analyzer : Analyzer) (jobs : List Job) (i : Nat) :
    Logged (List Job) := do
  match jobs[i]? with
  | none => return jobs
  | some j =>
    match machine.handOver (← (analyzer j.unit.content j.language).run) with
    | .ok functions => return jobs.set i { j with result := some (resultOf j.unit functions) }
    | .error e =>
      let cause := match e with
        | .unsupported _ | .text .. => unspecified
        | .lost message => message
      Logged.note .warning (("  Failed to analyze " : Text) ++ j.unit.path ++ (": " : Text) ++ cause)
      return jobs.set i { j with result := some { path := j.unit.path, errors := [e.message] } }

/-- Lets workers finish the jobs at the given places, in the given order. -/
def runPool (machine : Machine) (analyzer : Analyzer) (settings : LogSettings) (workers : Int)
    (order : List Nat) (jobs : List Job) : Logged (List Job) := do
  Logged.note .info (("  Analyzing " ++ toString order.length ++ " units in parallel (" ++
    toString workers ++ " workers)" : String) : Text)
  Progress.announce settings "Analyzing" "files" order.length
  let jobs ← order.foldlM (finish machine analyzer) jobs
  Progress.completed settings "Analyzing" "files" order.length
  return jobs

/-- Analyzes the jobs without a result, in a pool if there are enough of them. -/
def complete (machine : Machine) (analyzer : Analyzer) (settings : LogSettings) (workers : Int)
    (jobs : List Job) : ExceptT BatchError Logged (List Job) := do
  let places := pending jobs
  if workers > 1 ∧ places.length ≥ parallelThreshold then
    runPool machine analyzer settings workers (machine.completion places) jobs
  else do
    Progress.announce settings "Analyzing" "files" places.length
    (runInTurn analyzer jobs).adapt BatchError.analysis

/-- Stores the result of the job at a place, unless it has errors. -/
def storeAt (limits : Limits) (jobs : List Job) (cache : Cache) (i : Nat) :
    Except BatchError Cache :=
  match jobs[i]? with
  | some { unit, language, result := some result } =>
    if result.errors.isEmpty then
      (cache.put limits unit.content language result.functions).mapError (.unstored · cache)
    else .ok cache
  | _ => .ok cache

/-- Stores the results of the jobs at the given places, one after the other. -/
def store (limits : Limits) (jobs : List Job) (places : List Nat) (cache : Cache) :
    Except BatchError Cache := places.foldlM (storeAt limits jobs) cache

/-- Analyzes units. Returns the results and the cache with what was added to it. -/
def run (machine : Machine) (analyzer : Analyzer) (settings : LogSettings) (o : Options)
    (cache : Option Cache) (units : List SourceUnit) :
    ExceptT BatchError Logged (List FileFunctions × Option Cache) := do
  let jobs ← (units.mapM (lookUp machine.limits o cache)).adapt BatchError.encoding
  let places := pending jobs
  if cache.isSome then
    Logged.note .info (("  analyze_batch: " ++ toString (units.length - places.length) ++
      " cached, " ++ toString places.length ++ " to analyze" : String) : Text)
  let jobs ← complete machine analyzer settings (o.workers.getD machine.processors) jobs
  let results := jobs.filterMap (·.result)
  match cache with
  | none => return (results, none)
  | some c => return (results, some (← (store machine.limits jobs places c : Except _ _)))

/-- Checks units; the first that is none ends the batch. -/
def checkUnits (values : List Value) : Except BatchError (List SourceUnit) :=
  values.mapM fun v => match SourceUnit.check v with
    | .ok u => .ok u
    | .error findings => .error (.invalidUnit findings)

end Batch

/-- Analyzes units that are given as data, with what finds the functions of a source. -/
def analyzeBatchBy (machine : Machine) (analyzer : Analyzer) (settings : LogSettings)
    (o : Batch.Options) (cache : Option Cache) (units : List Value) :
    ExceptT BatchError Logged (List FileFunctions × Option Cache) := do
  Batch.run machine analyzer settings o cache (← (Batch.checkUnits units : Except _ _))

/-- Analyzes units that are given as data. -/
def analyzeBatch : (settings : LogSettings) → (o : Batch.Options) → (cache : Option Cache) →
    (units : List Value) → ExceptT BatchError Logged (List FileFunctions × Option Cache) :=
  analyzeBatchBy {} analyze

end FunctionInventory
