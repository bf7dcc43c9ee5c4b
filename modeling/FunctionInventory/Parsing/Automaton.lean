import FunctionInventory.Parsing.Grammar

/-!
# The automaton of a grammar, built on demand

A state is a set of items with the tokens that may follow each of them. States are
created when a parse first reaches them. Where a state allows several actions on a
token, precedence and associativity choose among them; what they leave open stays
ambiguous and is explored in parallel.
-/
namespace FunctionInventory

/-- What a state may do with a token. A shift that merely continues a repetition is
superseded by the reduction beside it. -/
inductive Action where
  | shift (continues : Bool)
  | reduce (item : Nat)
  | accept
  | shiftExtra
  | recover
deriving BEq, Inhabited

/-- A set of items, the tokens that may follow the rules that can begin here, and
what the lexer has to look for. -/
structure LrState where
  kernel : Array (Nat × TokenSet)
  heads : Array TokenSet
  valid : TokenSet
  wanted : List Candidate
deriving Inhabited

structure Automaton where
  grammar : Grammar
  states : Array LrState
  index : Std.HashMap (Array (Nat × TokenSet)) Nat
  gotos : Std.HashMap Nat Nat
  actions : Std.HashMap Nat (Array Action)
deriving Inhabited

namespace Grammar

def item (g : Grammar) (i : Nat) : Item := g.items.getD i default

/-- Whether an entry of a precedence order covers a precedence or one of the rules. -/
def rankCovers (g : Grammar) (p : Precedence) (heads : List Nat) : Rank → Bool
  | .name n => p == .name n
  | .rule n => heads.any fun h => (g.symbols.getD h default).name == n

/-- Compares along one order: the side met first is the stronger one. -/
def compareAlong (g : Grammar) (p : Precedence) (hp : List Nat) (q : Precedence) (hq : List Nat) :
    Bool → Bool → List Rank → Option Ordering
  | _, _, [] => none
  | sawLeft, sawRight, r :: rs =>
    if g.rankCovers p hp r then
      if sawRight then some .lt else compareAlong g p hp q hq true sawRight rs
    else if g.rankCovers q hq r then
      if sawLeft then some .gt else compareAlong g p hp q hq sawLeft true rs
    else compareAlong g p hp q hq sawLeft sawRight rs

/-- Compares two precedences: by number if one is not zero, else by the first order
that mentions both sides. -/
def comparePrecedence (g : Grammar) (p : Precedence) (hp : List Nat) (q : Precedence)
    (hq : List Nat) : Ordering :=
  let byOrders := (g.orders.findSome? (g.compareAlong p hp q hq false false)).getD .eq
  match p, q with
  | .level a, .level b => if a != 0 || b != 0 then compare a b else byOrders
  | .level a, .none => if a != 0 then compare a 0 else byOrders
  | .none, .level b => if b != 0 then compare 0 b else byOrders
  | _, _ => byOrders

/-- The tokens that may follow each rule that can begin where the rules of `seeds`
are expected. -/
def closure (g : Grammar) (seeds : Array (Nat × TokenSet)) : Array TokenSet := Id.run do
  let n := g.edges.size
  let mut heads := Array.replicate n (∅ : TokenSet)
  let mut present := Array.replicate n false
  let mut queue : Array Nat := #[]
  for (r, set) in seeds do
    heads := heads.modify r (·.union set)
    unless present.getD r true do
      present := present.setIfInBounds r true
      queue := queue.push r
  for _ in [0:n * 256] do
    match queue.back? with
    | none => break
    | some r =>
      queue := queue.pop
      present := present.setIfInBounds r false
      let here := heads.getD r ∅
      for e in g.edges.getD r #[] do
        let add := if e.last then e.following.union here else e.following
        let old := heads.getD e.target ∅
        unless add.subset old do
          heads := heads.setIfInBounds e.target (old.union add)
          unless present.getD e.target true do
            present := present.setIfInBounds e.target true
            queue := queue.push e.target
  return heads

/-- Completes a set of items to a state. -/
def makeState (g : Grammar) (kernel : Array (Nat × TokenSet)) : LrState := Id.run do
  let mut seeds : Array (Nat × TokenSet) := #[]
  let mut valid := g.extras
  for (i, look) in kernel do
    match (g.item i).ahead with
    | .done => valid := valid.union look
    | .symbol s starts following _ =>
      valid := valid.union starts
      if s ≥ g.tokenCount then
        seeds := seeds.push (s - g.tokenCount, following.getD look)
  -- the start rule may be empty
  for (i, look) in kernel do
    if i == startItem then valid := valid.union look
  return { kernel, heads := g.closure seeds, valid, wanted := g.candidates valid }

end Grammar

namespace Automaton

def ofGrammar (g : Grammar) : Automaton :=
  let look := TokenSet.singleton Grammar.endToken
  let start := g.makeState #[(Grammar.startItem, look)]
  let failed : LrState := ⟨#[], #[], ∅, g.candidates g.recovery⟩
  { grammar := g, states := #[failed, start],
    index := ({} : Std.HashMap _ _).insert start.kernel 1, gotos := {}, actions := {} }

/-- The state in which input is skipped. -/
def errorState : Nat := 0

def startState : Nat := 1

def state (a : Automaton) (s : Nat) : LrState := a.states.getD s default

/-- The items behind the symbol `x`, with their following tokens, by item number. -/
def advance (g : Grammar) (st : LrState) (x : Nat) : Array (Nat × TokenSet) := Id.run do
  let mut found : Std.HashMap Nat TokenSet := {}
  for (i, look) in st.kernel do
    if let .symbol s _ _ next := (g.item i).ahead then
      if s == x then
        found := found.alter next fun old => some ((old.getD ∅).union look)
  for (head, next) in g.starts.getD x #[] do
    let look := st.heads.getD (head - g.tokenCount) ∅
    unless look.isEmpty do
      found := found.alter next fun old => some ((old.getD ∅).union look)
  return found.toArray.qsort fun p q => p.1 < q.1

/-- The state behind the symbol `x`; the error state if there is none. -/
def goto (a : Automaton) (s x : Nat) : Nat × Automaton :=
  let key := s * 65536 + x
  match a.gotos[key]? with
  | some t => (t, a)
  | none =>
    let kernel := advance a.grammar (a.state s) x
    if kernel.isEmpty then (errorState, { a with gotos := a.gotos.insert key errorState })
    else match a.index[kernel]? with
      | some t => (t, { a with gotos := a.gotos.insert key t })
      | none =>
        let t := a.states.size
        let st := a.grammar.makeState kernel
        (t, { a with
          states := a.states.push st
          index := a.index.insert kernel t
          gotos := a.gotos.insert key t })

/-- Reductions that compete on a token, with what decides between them and a shift. -/
structure Reductions where
  actions : Array Action
  items : Array Nat
  prec : Precedence
  heads : List Nat
  hasLeft : Bool
  hasRight : Bool
  hasNone : Bool

def Reductions.start : Reductions := ⟨#[], #[], .none, [], false, false, false⟩

/-- Adds a reduction: a stronger one replaces those before it, a weaker one is dropped. -/
def Reductions.add (g : Grammar) (r : Reductions) (i : Nat) : Reductions :=
  let it := g.item i
  let action := if i == Grammar.acceptItem then Action.accept else .reduce i
  let put (r : Reductions) : Reductions := { r with
    actions := r.actions.push action
    items := r.items.push i
    prec := it.prec
    heads := if r.heads.contains it.head then r.heads else it.head :: r.heads
    hasLeft := r.hasLeft || it.assoc == some .left
    hasRight := r.hasRight || it.assoc == some .right
    hasNone := r.hasNone || it.assoc == none }
  if r.actions.isEmpty then put r
  else match g.comparePrecedence it.prec [it.head] r.prec r.heads with
    | .gt => put .start
    | .eq => put r
    | .lt => r

/-- The order in which completed items are reduced. -/
def reducesBefore (g : Grammar) (i j : Nat) : Bool :=
  let a := g.item i
  let b := g.item j
  if a.consumed != b.consumed then a.consumed < b.consumed
  else if a.head != b.head then a.head < b.head
  else if a.dynamic != b.dynamic then a.dynamic < b.dynamic
  else i < j

/-- The actions of a state on a token, in the order in which they are tried. -/
def resolve (g : Grammar) (st : LrState) (t : Nat) : Array Action := Id.run do
  if !st.valid.contains t then return #[]
  -- reductions
  let mut complete : Array Nat := #[]
  for (i, look) in st.kernel do
    if let .done := (g.item i).ahead then
      if look.contains t then complete := complete.push i
    if i == Grammar.startItem && look.contains t then
      for (_, e) in g.starts.getD g.symbols.size #[] do
        complete := complete.push e
  if complete.size > 1 then complete := complete.qsort (reducesBefore g)
  let reductions := complete.foldl (Reductions.add g) .start
  -- is there a shift, and what does it continue?
  let mut canShift := false
  let mut continued : Array Nat := #[]
  for (i, _) in st.kernel do
    if let .symbol s starts _ _ := (g.item i).ahead then
      if s == t then canShift := true
      if starts.contains t && (g.item i).consumed > 0 then continued := continued.push i
  if !canShift then
    for (head, _) in g.starts.getD t #[] do
      unless (st.heads.getD (head - g.tokenCount) ∅).isEmpty do canShift := true
  if !canShift then
    if reductions.actions.isEmpty && g.extras.contains t then return #[.shiftExtra]
    return reductions.actions
  if reductions.actions.isEmpty then return #[.shift false]
  -- a repetition that goes on
  let heads := (continued ++ complete).map fun i => (g.item i).head
  let isRepeat (h : Nat) : Bool := g.isRepeat.getD (h - g.tokenCount) false
  if let some h := heads[0]? then
    if isRepeat h && heads.all (· == h) then return reductions.actions.push (.shift true)
  -- precedence, then associativity
  let mut less := false
  let mut more := false
  for i in continued do
    let it := g.item i
    match g.comparePrecedence it.prec [it.head] reductions.prec reductions.heads with
    | .gt => more := true
    | .lt => less := true
    | .eq => pure ()
  if more && !less then return #[.shift false]
  if less && !more then return reductions.actions
  if !less && !more then
    if reductions.hasLeft && !reductions.hasNone && !reductions.hasRight then
      return reductions.actions
    if reductions.hasRight && !reductions.hasNone && !reductions.hasLeft then
      return #[.shift false]
  return reductions.actions.push (.shift false)

def actionsOn (a : Automaton) (s t : Nat) : Array Action × Automaton :=
  if s == errorState then (#[.recover], a)
  else
    let key := s * 256 + t
    match a.actions[key]? with
    | some r => (r, a)
    | none =>
      let r := resolve a.grammar (a.state s) t
      (r, { a with actions := a.actions.insert key r })

end Automaton

end FunctionInventory
