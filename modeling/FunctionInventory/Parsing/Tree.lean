import FunctionInventory.Parsing.Lexer

/-!
# Trees under construction

A tree knows what it costs: skipped input and missing tokens are charged, so that
the cheaper of two readings can be kept.
-/
namespace FunctionInventory

namespace ErrorCost

/-- Charged once for each place where the input does not fit. -/
def recovery : Nat := 500

def missingToken : Nat := 110

def skippedTree : Nat := 100

def skippedRow : Nat := 30

def skippedByte : Nat := 1

end ErrorCost

/-- What is known of a tree besides its children. `start` and `stop` are positions;
`marks` are the aliases and fields that the production gives to the children. -/
structure TreeInfo where
  symbol : Nat
  start : Nat
  stop : Nat
  marks : Array ChildMark := #[]
  cost : Nat := 0
  dynamic : Int := 0
  visibleChildren : Nat := 0
  visibleDescendants : Nat := 0
  extra : Bool := false
  missing : Bool := false
  keyword : Bool := false
deriving Inhabited

inductive Tree where
  | node (info : TreeInfo) (children : List Tree)
deriving Inhabited

namespace Tree

def info : Tree → TreeInfo
  | node i _ => i

def children : Tree → List Tree
  | node _ cs => cs

def symbol (t : Tree) : Nat := t.info.symbol

def stop (t : Tree) : Nat := t.info.stop

def dynamic (t : Tree) : Int := t.info.dynamic

def extra (t : Tree) : Bool := t.info.extra

def isError (t : Tree) : Bool := t.symbol == Grammar.errorSymbol

def errorCost (t : Tree) : Nat :=
  if t.info.missing then ErrorCost.missingToken + ErrorCost.recovery else t.info.cost

def setExtra (b : Bool) : Tree → Tree
  | node i cs => node { i with extra := b } cs

def setSymbol (s : Nat) : Tree → Tree
  | node i cs => node { i with symbol := s } cs

/-- Adds to the dynamic precedence. -/
def favour (d : Int) : Tree → Tree
  | node i cs => node { i with dynamic := i.dynamic + d } cs

/-- The leaf of a token. -/
def leaf (t : Token) : Tree :=
  node { symbol := t.symbol, start := t.start, stop := t.stop, keyword := t.keyword,
         extra := t.symbol == Grammar.endToken } []

/-- The leaf of a token that is supposed at `pos`. -/
def absent (symbol pos : Nat) : Tree := node { symbol, start := pos, stop := pos, missing := true } []

/-- What one child adds to the summary of its parent; `k` counts the children that
belong to the production. -/
def account (g : Grammar) (inError : Bool) (acc : TreeInfo × Nat) (child : Tree) : TreeInfo × Nat :=
  let (i, k) := acc
  let visible := (g.info child.symbol).visible
  let hasChildren := !child.children.isEmpty
  let skipped :=
    if inError && !child.extra && !(child.isError && !hasChildren) then
      if visible then ErrorCost.skippedTree
      else if hasChildren then ErrorCost.skippedTree * child.info.visibleChildren
      else 0
    else 0
  let own := if child.symbol == Grammar.errorChain then 0 else child.errorCost
  let aliased := !child.extra && ((i.marks[k]?).bind (·.as)).isSome
  let shown := aliased || visible
  ({ i with
    cost := i.cost + own + skipped
    dynamic := i.dynamic + child.dynamic
    visibleChildren := i.visibleChildren + (if shown then 1 else if hasChildren then
      child.info.visibleChildren else 0)
    visibleDescendants := i.visibleDescendants + child.info.visibleDescendants +
      (if shown then 1 else 0) },
   if child.extra then k else k + 1)

/-- A tree over `children`; `pos` is its place if there are none. -/
def make (g : Grammar) (src : Source) (symbol : Nat) (marks : Array ChildMark)
    (children : List Tree) (pos : Nat) : Tree :=
  let start := match children with
    | [] => pos
    | c :: _ => c.info.start
  let stop := match children.getLast? with
    | none => pos
    | some c => c.stop
  let inError := symbol == Grammar.errorSymbol || symbol == Grammar.errorChain
  let blank : TreeInfo := { symbol, start, stop, marks }
  let i := (children.foldl (account g inError) (blank, 0)).1
  let i := if inError then { i with
      cost := i.cost + ErrorCost.recovery +
        ErrorCost.skippedByte * (src.offset stop - src.offset start) +
        ErrorCost.skippedRow * (src.row stop - src.row start) } else i
  node i children

/-- How much a tree counts as progress. -/
def weight (g : Grammar) (t : Tree) : Nat :=
  t.info.visibleDescendants + (if (g.info t.symbol).visible then 1 else 0) +
    (if t.symbol == Grammar.errorChain then 1 else 0)

/-- Splits off the extras at the end. -/
def splitExtras (ts : List Tree) : List Tree × List Tree :=
  let r := ts.reverse
  ((r.dropWhile extra).reverse, (r.takeWhile extra).reverse)

mutual

/-- Orders trees by symbol, then by number of children, then child by child. -/
def order : Tree → Tree → Ordering
  | node i cs, node j ds =>
    if i.symbol != j.symbol then compare i.symbol j.symbol
    else if cs.length != ds.length then compare cs.length ds.length
    else orderAll cs ds

def orderAll : List Tree → List Tree → Ordering
  | c :: cs, d :: ds => match order c d with
    | .eq => orderAll cs ds
    | o => o
  | _, _ => .eq

end

/-- Whether `right` is the better reading: it costs less, or is favoured, or is
erroneous too and newer, or comes later in the order of trees. -/
def betterThan (right left : Tree) : Bool :=
  if right.errorCost != left.errorCost then right.errorCost < left.errorCost
  else if right.dynamic != left.dynamic then right.dynamic > left.dynamic
  else if left.errorCost > 0 then true
  else order left right == .gt

end Tree

end FunctionInventory
