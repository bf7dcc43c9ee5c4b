import FunctionInventory.FileSystem
import FunctionInventory.Language
import FunctionInventory.Log
import FunctionInventory.Record
import FunctionInventory.Text.Decoding

/-!
# Loading sources

Files are read as they are named; of a directory all source files below it are read, in
the order of their paths. A file that cannot be read is kept with the reason, and comes
back in its place among the results.
-/
namespace FunctionInventory

/-- A file that was read, or one that could not be. -/
inductive LoadedFile where
  | unit (u : SourceUnit)
  | failed (f : FileFunctions)
deriving DecidableEq, Inhabited

namespace Loading

/-- Directories and files with these names are passed over. -/
def defaultExclusions : List Text := [
  ".git", ".svn", ".hg", "node_modules", "vendor", "bower_components", "dist", "build", "out",
  ".next", ".nuxt", ".svelte-kit", ".turbo", ".idea", ".vscode", "coverage", ".nyc_output",
  ".funcmap"]

/-- Whether a file below a directory is wanted, by its chain of names. -/
def isWanted (exclude : List Text) (names : List Text) : Bool :=
  (Language.ofSuffix? (Path.suffix ⟨[], names⟩)).isSome && !names.any exclude.contains

/-- Of the entries found below a directory, the files that are wanted, as paths in order. -/
def selected (exclude : List Text) (p : Path) (found : List (List Text × FileTree)) : List Path :=
  let wanted := found.filter fun e => e.2.isFile && isWanted exclude e.1
  (wanted.map fun e => p.below e.1).mergeSort fun p q => !q.lt p

/-- The paths of the source files below a directory, in order. -/
def sourceFiles (disk : FileSystem) (exclude : List Text) (p : Path) : List Path :=
  match disk.status p with
  | .ok sub => selected exclude p (sub.descendants [])
  | .error _ => []

/-- The paths of the files that an argument stands for. -/
def expand (disk : FileSystem) (exclude : List Text) (p : Path) : Logged (List Path) := do
  if disk.isDirectory p then
    let found := sourceFiles disk exclude p
    Logged.note .info ((("  load_units: found " ++ toString found.length ++ " files under " : String) :
      Text) ++ p.toText)
    return found
  else return [p]

/-- The bytes of a file, or the message that says why it cannot be read. `unreadable` gives the
message for a file that the system refuses to read, apart from what the file tree forbids. -/
def readUnder (unreadable : Path → Option Text) (disk : FileSystem) (p : Path) :
    Except Text (List UInt8) :=
  match unreadable p with
  | some message => .error message
  | none => (disk.read p).mapError FileError.message

/-- The text of a source file. -/
def contentOf (bytes : List UInt8) : Text := Text.unifyLineEnds (Text.decodeReplacing bytes)

/-- Reads one file. -/
def loadFileUnder (unreadable : Path → Option Text) (disk : FileSystem) (p : Path) :
    Logged LoadedFile := do
  match readUnder unreadable disk p with
  | .ok bytes => return .unit ⟨p.toText, contentOf bytes⟩
  | .error message =>
    Logged.note .warning (("  Failed to read " : Text) ++ p.toText ++ (": " : Text) ++ message)
    return .failed { path := p.toText, errors := [message] }

/-- Reads files and the source files below directories. -/
def loadUnitsUnder (unreadable : Path → Option Text) (disk : FileSystem) (paths : List Text)
    (exclude : List Text := defaultExclusions) : Logged (List LoadedFile) := do
  let files ← paths.mapM fun p => expand disk exclude (.ofText p)
  files.flatten.mapM (loadFileUnder unreadable disk)

/-- Loads where the system refuses nothing. -/
def loadUnits (disk : FileSystem) (paths : List Text) (exclude : List Text := defaultExclusions) :
    Logged (List LoadedFile) := loadUnitsUnder (fun _ => none) disk paths exclude

/-- The files that were read. -/
def units (loaded : List LoadedFile) : List SourceUnit :=
  loaded.filterMap fun f => match f with
    | .unit u => some u
    | .failed _ => none

/-- Why results do not match what was loaded. -/
inductive MergeError where
  | missingResult (path : Text)
  | surplus
deriving DecidableEq, Inhabited

def MergeError.message : MergeError → Text
  | missingResult path => ("No analysis result for " : Text) ++ path
  | surplus => "More analysis results than loaded units"

/-- Puts the files that could not be read back among the results of the others. -/
def merge : List LoadedFile → List FileFunctions → Except MergeError (List FileFunctions)
  | [], [] => .ok []
  | [], _ :: _ => .error .surplus
  | .failed f :: loaded, results => (merge loaded results).map (f :: ·)
  | .unit u :: _, [] => .error (.missingResult u.path)
  | .unit u :: loaded, r :: results =>
    if r.path = u.path then (merge loaded results).map (r :: ·) else .error (.missingResult u.path)

end Loading

end FunctionInventory
