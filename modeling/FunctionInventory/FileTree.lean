import FunctionInventory.Text

/-!
# File trees

A tree of directories and files. What it holds is found by chains of names from the top.
-/
namespace FunctionInventory

inductive FileTree where
  | file (bytes : List UInt8)
  | directory (entries : List (Text × FileTree))
deriving Inhabited

namespace FileTree

def empty : FileTree := .directory []

/-- The entry of a name. -/
def child? (name : Text) (entries : List (Text × FileTree)) : Option FileTree :=
  (entries.find? fun e => e.1 = name).map (·.2)

/-- What stands at the end of a chain of names. -/
def get? : FileTree → List Text → Option FileTree
  | t, [] => some t
  | .file _, _ :: _ => none
  | .directory entries, name :: names => (child? name entries).bind (get? · names)

/-- Replaces or adds the entry of a name. -/
def setEntry (name : Text) (t : FileTree) : List (Text × FileTree) → List (Text × FileTree)
  | [] => [(name, t)]
  | e :: es => if e.1 = name then (name, t) :: es else e :: setEntry name t es

/-- Puts a tree at the end of a chain of names; what does not exist is left alone. -/
def set (t : FileTree) : FileTree → List Text → FileTree
  | _, [] => t
  | .file b, _ :: _ => .file b
  | .directory entries, [name] => .directory (setEntry name t entries)
  | .directory entries, name :: names =>
    match child? name entries with
    | some sub => .directory (setEntry name (set t sub names) entries)
    | none => .directory entries

/-- Takes away the end of a chain of names. -/
def erase : FileTree → List Text → FileTree
  | t, [] => t
  | .file b, _ :: _ => .file b
  | .directory entries, [name] => .directory (entries.filter fun e => e.1 ≠ name)
  | .directory entries, name :: names =>
    match child? name entries with
    | some sub => .directory (setEntry name (erase sub names) entries)
    | none => .directory entries

def isFile : FileTree → Bool
  | .file _ => true
  | .directory _ => false

mutual

/-- The entries below, each with its chain of names; a directory comes before what it holds. -/
def descendants (names : List Text) : FileTree → List (List Text × FileTree)
  | .file _ => []
  | .directory entries => descendantsOf names entries

def descendantsOf (names : List Text) : List (Text × FileTree) → List (List Text × FileTree)
  | [] => []
  | (name, t) :: rest =>
    (names ++ [name], t) :: (descendants (names ++ [name]) t ++ descendantsOf names rest)

end

end FileTree

end FunctionInventory
