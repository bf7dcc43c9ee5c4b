import FunctionInventory.Parsing.Tree

/-!
# The shared parse stack

Several readings of the input are followed at once. Their stacks share nodes: where
two readings reach the same state at the same place they are merged, and the paths
back from there record how each came about.
-/
namespace FunctionInventory

/-- A way back from a node, over a tree or over a gap. -/
structure Link where
  node : Nat
  tree : Option Tree
deriving Inhabited

structure StackNode where
  state : Nat
  position : Nat
  links : Array Link
  cost : Nat
  weight : Nat
  dynamic : Int
deriving Inhabited

/-- A state that the parser has been in, and how many trees above it would go. -/
structure Landmark where
  position : Nat
  depth : Nat
  state : Nat
deriving Inhabited

/-- A reading is followed, waits at a token that does not fit, or is given up. -/
inductive Status where
  | active
  | paused (lookahead : Tree)
  | halted
deriving Inhabited

/-- The top of one reading. `weightAtError` is the progress it had made when it last
met an error. -/
structure Head where
  node : Nat
  weightAtError : Nat := 0
  status : Status := .active
  landmarks : Option (Array Landmark) := none
deriving Inhabited

def Head.isActive (h : Head) : Bool := match h.status with
  | .active => true
  | _ => false

def Head.isPaused (h : Head) : Bool := match h.status with
  | .paused _ => true
  | _ => false

def Head.isHalted (h : Head) : Bool := match h.status with
  | .halted => true
  | _ => false

structure Stack where
  nodes : Array StackNode
  heads : Array Head
deriving Inhabited

/-- Trees taken off a reading, in order, and the reading that remains. -/
structure Slice where
  version : Nat
  trees : List Tree
deriving Inhabited

namespace Stack

def start : Stack :=
  ⟨#[⟨Automaton.startState, 0, #[], 0, 0, 0⟩], #[{ node := 0 }]⟩

def size (s : Stack) : Nat := s.heads.size

def head (s : Stack) (v : Nat) : Head := s.heads.getD v default

def node (s : Stack) (i : Nat) : StackNode := s.nodes.getD i default

def top (s : Stack) (v : Nat) : StackNode := s.node (s.head v).node

def state (s : Stack) (v : Nat) : Nat := (s.top v).state

def position (s : Stack) (v : Nat) : Nat := (s.top v).position

/-- Puts a tree, or a gap, on a reading. -/
def push (g : Grammar) (s : Stack) (v : Nat) (tree : Option Tree) (state : Nat) : Stack :=
  let h := s.head v
  let below := s.node h.node
  let links := #[⟨h.node, tree⟩]
  let n : StackNode := match tree with
    | some t => ⟨state, t.stop, links, below.cost + t.errorCost, below.weight + t.weight g,
        below.dynamic + t.dynamic⟩
    | none => ⟨state, below.position, links, below.cost, below.weight, below.dynamic⟩
  let i := s.nodes.size
  let h := { h with
    node := i
    weightAtError := if tree.isNone then n.weight else h.weightAtError }
  { nodes := s.nodes.push n, heads := s.heads.setIfInBounds v h }

def remove (s : Stack) (v : Nat) : Stack := { s with heads := s.heads.eraseIdxIfInBounds v }

/-- Lets the reading `v` take the place of `w`. -/
def renumber (s : Stack) (v w : Nat) : Stack :=
  if v == w then s
  else
    let source := s.head v
    let kept := match source.landmarks with
      | some _ => source
      | none => { source with landmarks := (s.head w).landmarks }
    { s with heads := (s.heads.setIfInBounds w kept).eraseIdxIfInBounds v }

def swap (s : Stack) (v w : Nat) : Stack :=
  { s with heads := (s.heads.setIfInBounds v (s.head w)).setIfInBounds w (s.head v) }

/-- A copy of a reading; its number is the old size. -/
def copy (s : Stack) (v : Nat) : Stack :=
  { s with heads := s.heads.push { s.head v with landmarks := none } }

def setStatus (s : Stack) (v : Nat) (status : Status) : Stack :=
  { s with heads := s.heads.modify v ({ · with status }) }

def halt (s : Stack) (v : Nat) : Stack := s.setStatus v .halted

def pause (s : Stack) (v : Nat) (lookahead : Tree) : Stack :=
  let h := { s.head v with status := .paused lookahead, weightAtError := (s.top v).weight }
  { s with heads := s.heads.setIfInBounds v h }

def haltedCount (s : Stack) : Nat := s.heads.foldl (fun n h => if h.isHalted then n + 1 else n) 0

/-- The cost of a reading; one that just met an error is charged for it. -/
def cost (s : Stack) (v : Nat) : Nat :=
  let h := s.head v
  let n := s.node h.node
  let atGap := n.state == Automaton.errorState && match n.links[0]? with
    | some l => l.tree.isNone
    | none => true
  n.cost + if h.isPaused || atGap then ErrorCost.recovery else 0

/-- The progress since the last error. A reading that fell behind that error counts
from where it is now. -/
def progress (s : Stack) (v : Nat) : Nat × Stack :=
  let h := s.head v
  let w := (s.node h.node).weight
  if w < h.weightAtError then
    (0, { s with heads := s.heads.setIfInBounds v { h with weightAtError := w } })
  else (w - h.weightAtError, s)

/-- Whether two links can stand for one: the same symbol over the same extent. -/
def sameLink (a b : Option Tree) : Bool :=
  match a, b with
  | none, none => true
  | some a, some b =>
    a.symbol == b.symbol &&
      ((a.errorCost > 0 && b.errorCost > 0) ||
        (a.info.start == b.info.start && a.stop == b.stop &&
          a.children.length == b.children.length && a.extra == b.extra))
  | _, _ => false

/-- Adds a way back to the node `i`. Where an equivalent way exists, the ways below
it are merged; between the same two nodes the favoured tree is kept. -/
def addLink (g : Grammar) : (fuel : Nat) → Stack → (i : Nat) → Link → Stack
  | 0, s, _, _ => s
  | fuel + 1, s, i, link =>
    if link.node == i then s
    else
      let here := s.node i
      let below := s.node link.node
      let treeDynamic := (link.tree.map Tree.dynamic).getD 0
      let equivalent (l : Link) : Bool := sameLink l.tree link.tree && (l.node == link.node ||
        ((s.node l.node).state == below.state && (s.node l.node).position == below.position &&
          (s.node l.node).cost == below.cost))
      match here.links.findIdx? equivalent with
      | some k =>
        let old := here.links.getD k default
        if old.node == link.node then
          if treeDynamic > (old.tree.map Tree.dynamic).getD 0 then
            let here := { here with
              links := here.links.setIfInBounds k { old with tree := link.tree }
              dynamic := below.dynamic + treeDynamic }
            { s with nodes := s.nodes.setIfInBounds i here }
          else s
        else
          let s := below.links.foldl (fun s l => addLink g fuel s old.node l) s
          { s with nodes := s.nodes.modify i fun n =>
              { n with dynamic := max n.dynamic (below.dynamic + treeDynamic) } }
      | none =>
        if here.links.size ≥ 8 then s
        else
          let weight := below.weight + (link.tree.map (Tree.weight g)).getD 0
          let here := { here with
            links := here.links.push link
            weight := max here.weight weight
            dynamic := max here.dynamic (below.dynamic + treeDynamic) }
          { s with nodes := s.nodes.setIfInBounds i here }

def canMerge (s : Stack) (v w : Nat) : Bool :=
  let a := s.top v
  let b := s.top w
  (s.head v).isActive && (s.head w).isActive && a.state == b.state && a.position == b.position &&
    a.cost == b.cost

/-- Merges the reading `w` into `v` if both are in the same state at the same place. -/
def merge (g : Grammar) (s : Stack) (v w : Nat) : Bool × Stack :=
  if !s.canMerge v w then (false, s)
  else
    let target := (s.head v).node
    let s := (s.top w).links.foldl (fun s l => addLink g s.nodes.size s target l) s
    let n := s.node target
    let s := if n.state == Automaton.errorState then
        { s with heads := s.heads.modify v ({ · with weightAtError := n.weight }) }
      else s
    (true, s.remove w)

/-- A walk from the top of a reading: where it is, the trees passed (the last one
first) and how many of them count. -/
structure Walk where
  node : Nat
  trees : List Tree := []
  count : Nat := 0

/-- One step of a walk along a link. Extras do not count. -/
def Walk.along (w : Walk) (l : Link) : Walk :=
  match l.tree with
  | some t => ⟨l.node, t :: w.trees, if t.extra then w.count else w.count + 1⟩
  | none => ⟨l.node, w.trees, w.count + 1⟩

/-- Records the end of a walk as a reading of its own, or beside one that ends at the
same node. -/
def addSlice (s : Stack) (source : Nat) (slices : Array Slice) (w : Walk) : Array Slice × Stack :=
  match (List.range slices.size).reverse.find? fun k =>
      (s.head (slices.getD k default).version).node == w.node with
  | some k =>
    let v := (slices.getD k default).version
    (slices.insertIdxIfInBounds (k + 1) ⟨v, w.trees⟩, s)
  | none =>
    let h := s.head source
    let v := s.heads.size
    (slices.push ⟨v, w.trees⟩,
      { s with heads := s.heads.push { node := w.node, weightAtError := h.weightAtError } })

/-- What to do with a walk: take its trees, and whether to end it. -/
structure Verdict where
  take : Bool
  stop : Bool

/-- Follows all walks from the top of a reading in rounds. `judge` looks at each walk
and may remember something; at most 64 walks are followed at once. -/
def explore (judge : Stack → σ → Walk → Verdict × σ) (source : Nat) :
    (fuel : Nat) → List Walk → Array Slice → σ → Stack → Array Slice × σ × Stack
  | 0, _, slices, memory, s => (slices, memory, s)
  | fuel + 1, walks, slices, memory, s =>
    if walks.isEmpty then (slices, memory, s)
    else Id.run do
      let mut stay : Array Walk := #[]
      let mut born : Array Walk := #[]
      let mut total := walks.length
      let mut slices := slices
      let mut memory := memory
      let mut s := s
      for w in walks do
        let n := s.node w.node
        let (verdict, m) := judge s memory w
        memory := m
        if verdict.take then
          let (sl, s') := addSlice s source slices w
          slices := sl
          s := s'
        if verdict.stop || n.links.isEmpty then
          total := total - 1
        else
          for l in n.links.toList.drop 1 do
            if total < 64 then
              born := born.push (w.along l)
              total := total + 1
          if let some l := n.links[0]? then stay := stay.push (w.along l)
      return explore judge source fuel (stay ++ born).toList slices memory s

/-- Takes `count` trees off a reading, along every way back. -/
def popCount (s : Stack) (v count : Nat) : Array Slice × Stack :=
  let (slices, _, s) := explore
    (fun _ (_ : Unit) w => let hit := w.count == count; (⟨hit, hit⟩, ()))
    v (s.nodes.size + 1) [{ node := (s.head v).node }] #[] () s
  (slices, s)

/-- Takes everything off a reading. -/
def popAll (s : Stack) (v : Nat) : Array Slice × Stack :=
  let (slices, _, s) := explore
    (fun s (_ : Unit) w => (⟨(s.node w.node).links.isEmpty, false⟩, ()))
    v (s.nodes.size + 1) [{ node := (s.head v).node }] #[] () s
  (slices, s)

/-- Takes an error tree off the top of a reading, if there is one. -/
def popError (s : Stack) (v : Nat) : List Tree × Stack :=
  let isErrorLink (l : Link) : Bool := (l.tree.map Tree.isError).getD false
  if !(s.top v).links.any isErrorLink then ([], s)
  else
    let (slices, _, s) := explore
      (fun _ (found : Bool) w => match w.trees with
        | [] => (⟨false, false⟩, found)
        | t :: _ => if !found && t.isError then (⟨true, true⟩, true) else (⟨false, true⟩, found))
      v (s.nodes.size + 1) [{ node := (s.head v).node }] #[] false s
    match slices[0]? with
    | some sl => (sl.trees, s.renumber sl.version v)
    | none => ([], s)

/-- Notes the states below the top of a reading, down to the given depth. -/
def recordLandmarks (s : Stack) (v depth : Nat) : Stack :=
  let (_, marks, s) := explore
    (fun s (marks : Array Landmark) w =>
      let n := s.node w.node
      if w.count > depth then (⟨false, true⟩, marks)
      else
        let recent := marks.toList.reverse.takeWhile fun m => w.count ≤ m.depth
        let known := recent.any fun m => m.depth == w.count && m.state == n.state
        (⟨false, false⟩, if known then marks else marks.push ⟨n.position, w.count, n.state⟩))
    v (s.nodes.size + 1) [{ node := (s.head v).node }] #[] #[] s
  { s with heads := s.heads.modify v ({ · with landmarks := some marks }) }

/-- Whether a reading has consumed something since its last error. -/
def hasAdvanced (s : Stack) (v : Nat) : Bool :=
  let h := s.head v
  (s.node h.node).cost == 0 || go s h.weightAtError s.nodes.size h.node
where
  go (s : Stack) (weightAtError : Nat) : Nat → Nat → Bool
    | 0, _ => false
    | fuel + 1, i =>
      let n := s.node i
      let l := n.links.getD 0 default
      match l.tree with
      | some t =>
        if n.position > (s.node l.node).position then true
        else if n.weight > weightAtError && t.errorCost == 0 then go s weightAtError fuel l.node
        else false
      | none => false

end Stack

end FunctionInventory
