import FunctionInventory.Text

/-!
# Paths

A path is a root and a list of components. Empty components and single dots are left
out; double dots are kept.
-/
namespace FunctionInventory

structure Path where
  root : Text
  parts : List Text
deriving DecidableEq, Inhabited

namespace Path

def slash : CodePoint := .ofChar '/'

def dot : CodePoint := .ofChar '.'

/-- Splits a text at every slash. -/
def splitSlash : Text → List Text
  | [] => [[]]
  | c :: cs =>
    match splitSlash cs with
    | part :: rest => if c == slash then [] :: part :: rest else (c :: part) :: rest
    | [] => [[c]]

/-- Two slashes in front make a root of their own; one, or more than two, the common one. -/
def rootOf (t : Text) : Text :=
  match (t.takeWhile (· == slash)).length with
  | 0 => []
  | 2 => [slash, slash]
  | _ => [slash]

def ofText (t : Text) : Path :=
  ⟨rootOf t, (splitSlash t).filter fun part => !part.isEmpty && part != [dot]⟩

def toText (p : Path) : Text :=
  if p.root.isEmpty && p.parts.isEmpty then [dot]
  else p.root ++ (p.parts.intersperse [slash]).flatten

instance : HDiv Path Text Path := ⟨fun p name => { p with parts := p.parts ++ [name] }⟩

/-- The path that a chain of names leads to from a directory. -/
def below (p : Path) (names : List Text) : Path := { p with parts := p.parts ++ names }

/-- The last component. -/
def name (p : Path) : Text := p.parts.getLastD []

/-- The path without its last component. -/
def parent (p : Path) : Path := { p with parts := p.parts.dropLast }

/-- The last dot of the name and what follows it; the dot is neither the first nor the
last character of the name. -/
def suffix (p : Path) : Text :=
  let ending := p.name.reverse.takeWhile (· != dot)
  if ending.isEmpty || p.name.length ≤ ending.length + 1 then []
  else dot :: ending.reverse

/-- Order by components. -/
def lt (p q : Path) : Bool := go p.parts q.parts
where
  go : List Text → List Text → Bool
    | _, [] => false
    | [], _ :: _ => true
    | a :: as, b :: bs => if Text.lt a b then true else if Text.lt b a then false else go as bs

end Path

end FunctionInventory
