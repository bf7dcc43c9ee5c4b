import FunctionInventory.FileTree
import FunctionInventory.Path
import FunctionInventory.Text.Quoted

/-!
# File systems

A file tree with a working directory. Paths are followed component by component; a
double dot goes back to the directory above, and the top is above itself.
-/
namespace FunctionInventory

/-- Why a path cannot be used. -/
inductive FileFault where
  | missing
  | present
  | notDirectory
  | isDirectory
deriving DecidableEq, Repr, Inhabited

namespace FileFault

def code : FileFault → Nat
  | missing => 2
  | present => 17
  | notDirectory => 20
  | isDirectory => 21

def text : FileFault → String
  | missing => "No such file or directory"
  | present => "File exists"
  | notDirectory => "Not a directory"
  | isDirectory => "Is a directory"

end FileFault

/-- A fault and the path that has it. -/
structure FileError where
  fault : FileFault
  path : Path
deriving DecidableEq, Inhabited

def FileError.message (e : FileError) : Text :=
  (("[Errno " ++ toString e.fault.code ++ "] " ++ e.fault.text ++ ": " : String) : Text) ++
    Text.quoted e.path.toText

/-- A file tree and the chain of names of the working directory. -/
structure FileSystem where
  tree : FileTree := .empty
  here : List Text := []
deriving Inhabited

namespace FileSystem

def above : Text := ".."

/-- Follows one component from the directory with the given chain of names. -/
def follow (s : FileSystem) (names : List Text) (part : Text) : Except FileFault (List Text) :=
  match s.tree.get? names with
  | some (.directory entries) =>
    if part = above then .ok names.dropLast
    else if (FileTree.child? part entries).isSome then .ok (names ++ [part])
    else .error .missing
  | some (.file _) => .error .notDirectory
  | none => .error .missing

/-- The chain of names that a list of components leads to, from the working directory
or from the top. -/
def locate (s : FileSystem) (root : Text) (parts : List Text) : Except FileFault (List Text) :=
  parts.foldlM (follow s) (if root.isEmpty then s.here else [])

/-- What a path leads to. -/
def status (s : FileSystem) (p : Path) : Except FileError FileTree :=
  match s.locate p.root p.parts with
  | .ok names => match s.tree.get? names with
    | some sub => .ok sub
    | none => .error ⟨.missing, p⟩
  | .error fault => .error ⟨fault, p⟩

def isDirectory (s : FileSystem) (p : Path) : Bool :=
  match s.status p with
  | .ok (.directory _) => true
  | _ => false

def pathExists (s : FileSystem) (p : Path) : Bool :=
  match s.status p with
  | .ok _ => true
  | .error _ => false

/-- What a path leads to as it is written: a slash or a dot at its end asks for a
directory. -/
def statusAsWritten (s : FileSystem) (written : Text) : Except FileError FileTree :=
  let p := Path.ofText written
  if written.isEmpty then .error ⟨.missing, p⟩
  else
    let last := (Path.splitSlash written).getLastD []
    match s.status p with
    | .ok (.file b) => if last.isEmpty || last == [Path.dot] then .error ⟨.notDirectory, p⟩ else .ok (.file b)
    | r => r

/-- The bytes of a file. -/
def read (s : FileSystem) (p : Path) : Except FileError (List UInt8) :=
  match s.status p with
  | .ok (.file bytes) => .ok bytes
  | .ok (.directory _) => .error ⟨.isDirectory, p⟩
  | .error e => .error e

/-- Where the last component of a path stands or would stand: the chain of names up to
it, with itself unless it leads back. -/
def place (s : FileSystem) (p : Path) : Except FileError (Option (List Text × Text)) :=
  match p.parts.getLast? with
  | none => .ok none
  | some last =>
    match s.locate p.root p.parts.dropLast with
    | .error fault => .error ⟨fault, p⟩
    | .ok names =>
      match s.tree.get? names with
      | some (.directory _) => .ok (if last = above then none else some (names, last))
      | some (.file _) => .error ⟨.notDirectory, p⟩
      | none => .error ⟨.missing, p⟩

/-- Puts a tree at the end of a chain of names. -/
def put (s : FileSystem) (names : List Text) (t : FileTree) : FileSystem :=
  { s with tree := FileTree.set t s.tree names }

/-- Writes a file, in place of the one that is there. -/
def write (s : FileSystem) (p : Path) (bytes : List UInt8) : Except FileError FileSystem := do
  match ← s.place p with
  | none => throw ⟨.isDirectory, p⟩
  | some (names, last) =>
    match s.tree.get? (names ++ [last]) with
    | some (.directory _) => throw ⟨.isDirectory, p⟩
    | _ => return s.put (names ++ [last]) (.file bytes)

/-- Makes one directory. -/
def makeDirectory (s : FileSystem) (p : Path) : Except FileError FileSystem := do
  match ← s.place p with
  | none => throw ⟨.present, p⟩
  | some (names, last) =>
    if (s.tree.get? (names ++ [last])).isSome then throw ⟨.present, p⟩
    else return s.put (names ++ [last]) .empty

/-- Makes a directory and those above it, as far as they are missing. -/
def makeDirectories (s : FileSystem) (p : Path) : Except FileError FileSystem :=
  match s.makeDirectory p with
  | .ok s => .ok s
  | .error e =>
    if e.fault = .missing then
      if _h : p.parts = [] then .error e
      else
        match makeDirectories s p.parent with
        | .error e => .error e
        | .ok s => orPresent s (s.makeDirectory p)
    else orPresent s (.error e)
termination_by p.parts.length
decreasing_by
  have := List.length_pos_iff.2 _h
  simp only [Path.parent, List.length_dropLast]
  omega
where
  /-- A directory that is there already is no fault. -/
  orPresent (s : FileSystem) (r : Except FileError FileSystem) : Except FileError FileSystem :=
    match r with
    | .ok s => .ok s
    | .error e => if s.isDirectory p then .ok s else .error e

/-- Takes away a file, or a directory with all it holds. -/
def remove (s : FileSystem) (p : Path) : FileSystem :=
  match s.locate p.root p.parts with
  | .ok names => { s with tree := s.tree.erase names }
  | .error _ => s

end FileSystem

end FunctionInventory
