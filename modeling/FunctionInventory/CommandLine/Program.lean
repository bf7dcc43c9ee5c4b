import FunctionInventory.Batch
import FunctionInventory.CommandLine.Arguments
import FunctionInventory.Data.Json
import FunctionInventory.Loading
import FunctionInventory.Resolution

/-!
# The program

The analyze command loads files, analyzes them as a batch and prints the inventory as
JSON. Everything else prints help or says what is wrong with the arguments.
-/
namespace FunctionInventory

namespace CommandLine

/-- What a run prints, and its exit status. -/
structure Output where
  status : Nat := 0
  out : Text := []
  err : Text := []
deriving Inhabited

def versionText : Text := "funcmap, version 0.1.0\n"

def programUsage : Text := "Usage: funcmap [OPTIONS] COMMAND [ARGS]...\n"

def programHelp : Text :=
  programUsage ++ ("\n  funcmap - function inventories for TypeScript and JavaScript sources.\n
Options:
  --version  Show the version and exit.
  --help     Show this message and exit.

Commands:
  analyze  Extract the functions defined in source files.
" : Text)

def analyzeUsage : Text := "Usage: funcmap analyze [OPTIONS] PATHS...\n"

def analyzeHelp : Text :=
  analyzeUsage ++ ("\n  Extract the functions defined in source files.

  PATHS: Files or directories to analyze.

Options:
  --language [auto|typescript|tsx|javascript]
                                  Grammar to parse with (default: auto-detect
                                  from extension)
  --resolve                       Keep only calls to functions defined in the
                                  analyzed files
  --workers INTEGER               Parallel workers for large batches (default:
                                  cpu count)
  --cache-dir DIRECTORY           Directory for the analysis cache (default: no
                                  cache)
  --compact                       Print JSON without indentation
  --help                          Show this message and exit.
" : Text)

/-- Says what is wrong with the arguments of a command. -/
def misuse (usage command : Text) (e : UsageError) : Output where
  status := 2
  err :=
    (if e.showsUsage then
      usage ++ ("Try '" : Text) ++ command ++ (" --help' for help.\n\n" : Text)
    else []) ++ ("Error: " : Text) ++ e.message ++ ("\n" : Text)

/-- Why an analysis failed as a whole. -/
inductive Failure where
  | reading (e : Cache.ReadError)
  | batch (e : BatchError)
  | unwritable (e : MessagePack.Unwritable)
  | nesting (e : NestingError)
  | merge (e : Loading.MergeError)

def Failure.message : Failure → Text
  | reading e => e.message
  | batch (.analysis e) => e.message
  | batch (.unstored (.nesting e) _) => e.message
  | batch _ => unspecified
  | unwritable .integerRange => "Integer value out of range"
  | unwritable .nesting => "recursion limit exceeded."
  | unwritable _ => unspecified
  | nesting e => e.message
  | merge e => e.message

/-- What a run depends on besides the request and the file tree: what finds the functions of a
source, what batches are run on, the sources that the system refuses to read, and the steps of
loading and saving the cache that it refuses. -/
structure Conditions where
  analyzer : Analyzer := analyze
  machine : Machine := {}
  unreadable : Path → Option Text := fun _ => none
  refusals : Cache.Refusals := {}

/-- A run may fail, changes files and writes to the log. -/
abbrev Run := ExceptT Failure (StateT FileSystem Logged)

/-- Opens the cache of a request. -/
def openCache (refusals : Cache.Refusals) (r : Request) : Run (Option Cache) := do
  match r.cacheDirectory with
  | none => return none
  | some d =>
    if d.isEmpty then return none
    let loaded ← liftM (Cache.loadUnder refusals { directory := .ofText d } (← get)).run
    match loaded with
    | .ok c => return some c
    | .error e => throw (.reading e)

/-- Saves a cache, if there is one. -/
def saveCache (limits : Limits) (refusals : Cache.Refusals) : Option Cache → Run Unit
  | none => return
  | some c => do
    let saved ← liftM (c.saveUnder limits refusals (← get))
    set saved.disk
    match saved.unwritable with
    | some e => throw (.unwritable e)
    | none => return

/-- How the units of a request are analyzed. -/
def Request.options (r : Request) : Batch.Options :=
  { workers := r.workers, language := r.language }

/-- Loads the files of a request and analyzes those that were read. What the analyses found goes
to the cache as it is. -/
def collectUnder (conditions : Conditions) (settings : LogSettings) (r : Request) :
    Run (List LoadedFile × List FileFunctions) := do
  let loaded ← liftM (Loading.loadUnitsUnder conditions.unreadable (← get) r.paths)
  let units := Loading.units loaded
  let cache ← openCache conditions.refusals r
  let outcome ← liftM (Progress.logOperation "analyze" [("units", toString units.length)]
    (fun _ => unspecified)
    (Batch.run conditions.machine conditions.analyzer settings r.options cache units)).run
  match outcome with
  | .error e => throw (.batch e)
  | .ok (results, cache) =>
    saveCache conditions.machine.limits conditions.refusals cache
    return (loaded, results)

/-- The results that are printed: those of the analyses, with their calls resolved if this is
asked for. -/
def resolvedIf (resolve : Bool) (limits : Limits) (results : List FileFunctions) :
    Except NestingError (List FileFunctions) :=
  if resolve then resolveFiles limits.resolving results else .ok results

/-- The inventory that a request asks for. -/
def inventoryUnder (conditions : Conditions) (settings : LogSettings) (r : Request) :
    Run (List FileFunctions) := do
  let (loaded, results) ← collectUnder conditions settings r
  match resolvedIf r.resolve conditions.machine.limits results with
  | .error e => throw (.nesting e)
  | .ok results =>
    match Loading.merge loaded results with
    | .ok files => return files
    | .error e => throw (.merge e)

/-- The inventory as JSON. -/
def render (limits : Limits) (compact : Bool) (files : List FileFunctions) :
    Except NestingError Text := do
  let values ← files.mapM (FileFunctions.dump limits.data .camelCase)
  return (Value.list values).toJson (if compact then none else some 2) ++ "\n"

/-- What is printed of a run that fails. -/
def Output.ofFailure (e : Failure) : Output :=
  { status := 1, err := ("Analysis failed: " : Text) ++ e.message ++ ("\n" : Text) }

/-- What is printed where an error ends the program, with the trace of where it was. -/
def Output.ofTrace (e : NestingError) : Output where
  status := 1
  err := ("Traceback (most recent call last):\n" : Text) ++ unspecified ++
    ("\nValueError: " : Text) ++ e.message ++ ("\n" : Text)

/-- What is printed of an inventory. One that cannot be turned into data ends the program. -/
def Output.ofFiles (limits : Limits) (compact : Bool) (files : List FileFunctions) : Output :=
  match render limits compact files with
  | .ok out => { out }
  | .error e => .ofTrace e

/-- Runs the analyze command. -/
def runAnalyzeUnder (conditions : Conditions) (settings : LogSettings) (r : Request)
    (disk : FileSystem) : Logged (Output × FileSystem) := do
  let (outcome, disk) ← (inventoryUnder conditions settings r).run.run disk
  match outcome with
  | .ok files => return (.ofFiles conditions.machine.limits r.compact files, disk)
  | .error e => return (.ofFailure e, disk)

/-- What the options of the program itself ask for, if anything. -/
def programOutput? (s : Split) : Option Output :=
  (s.options.head?).map fun o =>
    if o.1 == Text.ofString "--version" then { out := versionText } else { out := programHelp }

/-- Answers arguments that name no command. -/
def unknownCommand (name : Text) (rest : List Text) : Output :=
  let unknown := misuse programUsage "funcmap"
    (.noSuchCommand name (Text.closeMatches name ["analyze"]))
  if isOption name then
    match split programOptions false (name :: rest) {} with
    | .error e => misuse programUsage "funcmap" e
    | .ok s => (programOutput? s).getD unknown
  else unknown

/-- Runs the program on its arguments. -/
def runUnder (conditions : Conditions) (settings : LogSettings) (env : Environment)
    (args : List Text) (disk : FileSystem) : Logged (Output × FileSystem) := do
  if args.isEmpty then return ({ status := 2, err := programHelp }, disk)
  match split programOptions false args {} with
  | .error e => return (misuse programUsage "funcmap" e, disk)
  | .ok s =>
    if let some out := programOutput? s then return (out, disk)
    match s.arguments with
    | [] => return (misuse programUsage "funcmap" .missingCommand, disk)
    | name :: rest =>
      if name != "analyze" then return (unknownCommand name rest, disk)
      let misused (e : UsageError) : Output := misuse analyzeUsage "funcmap analyze" e
      match split analyzeOptions true rest {} with
      | .error e => return (misused e, disk)
      | .ok s =>
        if s.has "--help" then return ({ out := analyzeHelp }, disk)
        match request disk env s with
        | .error e => return (misused e, disk)
        | .ok r => runAnalyzeUnder conditions settings r disk

/-- Runs the program where the system refuses nothing. -/
def run : (settings : LogSettings) → (env : Environment) → (args : List Text) →
    (disk : FileSystem) → Logged (Output × FileSystem) := runUnder {}

end CommandLine

end FunctionInventory
