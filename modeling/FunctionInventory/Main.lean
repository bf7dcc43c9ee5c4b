import FunctionInventory.CommandLine.Program

/-!
# Running the program

What the arguments may name is copied into a file system, the program runs on the copy,
and the files it changed are written back.
-/
namespace FunctionInventory

namespace CommandLine

/-- Whether the program may look into a file that it finds in a directory. -/
def mayRead (name : Text) : Bool := Loading.isWanted [] [name] || name == Cache.fileName

/-- Copies what stands at an entry. Of the files in a directory only those are read that
the program may look into, and what is never searched stays empty. -/
partial def copyEntry (entry : IO.FS.DirEntry) : IO FileTree := do
  if ← entry.path.isDir then
    let entries ← (← entry.path.readDir).toList.mapM fun e => do
      let name : Text := e.fileName
      if Loading.defaultExclusions.contains name then
        return (name, if ← e.path.isDir then .empty else .file [])
      else if mayRead name || (← e.path.isDir) then return (name, ← copyEntry e)
      else return (name, .file [])
    return .directory entries
  else return .file (← IO.FS.readBinFile entry.path).toList

/-- The entry of a path. -/
def entryOf (p : Path) : IO IO.FS.DirEntry :=
  return { root := ← IO.currentDir, fileName := Text.toString p.toText }

/-- Copies the directories on the way to a path, and what it leads to. -/
def copyPath (disk : FileSystem) (p : Path) : IO FileSystem := do
  let mut disk := disk
  for k in [1 : p.parts.length] do
    let q : Path := { p with parts := p.parts.take k }
    let entry ← entryOf q
    if ← entry.path.isDir then disk := (disk.makeDirectory q).toOption.getD disk
    else if ← entry.path.pathExists then disk := (disk.write q []).toOption.getD disk
  let entry ← entryOf p
  if ← entry.path.pathExists then
    match disk.place p with
    | .ok (some (names, last)) => return disk.put (names ++ [last]) (← copyEntry entry)
    | .ok none =>
      match disk.locate p.root p.parts with
      | .ok names => return disk.put names (← copyEntry entry)
      | .error _ => return disk
    | .error _ => return disk
  else return disk

/-- The paths that arguments and the environment may name, outer directories first and
files last. -/
def namedPaths (args : List Text) (env : Environment) : IO (List Path) := do
  let given := args ++ args.filterMap (fun a => (splitValue a).2) ++ env.cacheDirectory.toList
  let entries ← (given.map Path.ofText).mapM fun p => return (p, ← (← entryOf p).path.isDir)
  let (directories, files) := entries.partition (·.2)
  let outerFirst := directories.mergeSort fun a b => a.1.parts.length ≤ b.1.parts.length
  return (outerFirst ++ files).map (·.1)

/-- A file system that holds the working directory and the given paths. -/
def copyDisk (paths : List Path) : IO FileSystem := do
  let here := (Path.ofText (← IO.currentDir).toString).parts
  let tree := here.foldr (fun name t => FileTree.directory [(name, t)]) .empty
  paths.foldlM copyPath { tree, here }

/-- Writes the files that are not as they were. -/
def writeBack (before after : FileSystem) : IO Unit := do
  for (names, t) in after.tree.descendants [] do
    let .file bytes := t | continue
    let unchanged := match before.tree.get? names with
      | some (.file old) => old == bytes
      | _ => false
    unless unchanged do
      let path : Path := { root := [Path.slash], parts := names }
      IO.FS.createDirAll (Text.toString path.parent.toText)
      IO.FS.writeBinFile (Text.toString path.toText) ⟨bytes.toArray⟩

/-- A variable of the environment. -/
def setting (name : String) : IO (Option Text) := return (← IO.getEnv name).map Text.ofString

end CommandLine

end FunctionInventory

open FunctionInventory in
def main (args : List String) : IO UInt32 := do
  let args : List Text := args.map Text.ofString
  let env : CommandLine.Environment :=
    { workers := ← CommandLine.setting "FUNCMAP_WORKERS"
      cacheDirectory := ← CommandLine.setting "FUNCMAP_CACHE_DIR" }
  let settings := LogSettings.ofEnvironment (← CommandLine.setting "FUNCMAP_LOG_LEVEL")
    (← CommandLine.setting "FUNCMAP_DISABLE_PROGRESS") (← (← IO.getStderr).isTty)
  let before ← CommandLine.copyDisk (← CommandLine.namedPaths args env)
  let ((output, after), log) := Logged.outcome (CommandLine.run settings env args before)
  for entry in shownAt settings.threshold log do
    IO.eprintln ("[funcmap] " ++ entry.level.name ++ ": " ++ Text.toString entry.text)
  CommandLine.writeBack before after
  IO.print (Text.toString output.out)
  IO.eprint (Text.toString output.err)
  return UInt32.ofNat output.status
