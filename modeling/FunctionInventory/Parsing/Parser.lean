import FunctionInventory.Parsing.Stack

/-!
# Following all readings of an input

The parser advances each reading by one token in turn. A reading that meets a token
it has no use for waits; when all others are worse, it recovers by supposing a
missing token, by going back to a state that can use the token, or by skipping it.
Readings that cost clearly more than another one are dropped.
-/
namespace FunctionInventory

namespace Parser

/-- How many readings are kept, and by how many more that may be exceeded for a while. -/
def maxReadings : Nat := 6

def overflow : Nat := 4

/-- A reading is dropped when it costs this much more than a better one. -/
def maxCostDifference : Nat := 18 * ErrorCost.skippedTree

def maxDepth : Nat := 16

/-- What does not change during a parse. -/
structure Input where
  src : Source
  scanner : Scanner
  grammar : Grammar
  anyToken : List Candidate

structure State where
  stack : Stack
  finished : Option Tree
  accepted : Nat

abbrev ParseM := StateT Automaton (StateM State)

@[inline] def onAutomaton (f : Automaton → α × Automaton) : ParseM α := modifyGet f

/-- Looks at the stack without holding on to it. -/
@[noinline] def view (f : Stack → α) : ParseM α := do return f (← getThe State).stack

/-- The best tree found so far, if any. -/
@[noinline] def finished : ParseM (Option Tree) := do return (← getThe State).finished

@[noinline] def accepted : ParseM Nat := do return (← getThe State).accepted

@[inline] def modifyStack (f : Stack → Stack) : ParseM Unit :=
  modifyThe State fun ⟨s, t, n⟩ => ⟨f s, t, n⟩

@[inline] def onStack (f : Stack → α × Stack) : ParseM α :=
  modifyGetThe State fun ⟨s, t, n⟩ => let (a, s) := f s; (a, ⟨s, t, n⟩)

def goto (s x : Nat) : ParseM Nat := onAutomaton fun a => a.goto s x

def actionsOn (s t : Nat) : ParseM (Array Action) :=
  if t == Grammar.errorSymbol then
    return if s == Automaton.errorState then #[.recover] else #[]
  else onAutomaton fun a => a.actionsOn s t

structure Standing where
  cost : Nat
  progress : Nat
  dynamic : Int
  inError : Bool

inductive Comparison where
  | takeLeft
  | preferLeft
  | none
  | preferRight
  | takeRight

def compareStandings (a b : Standing) : Comparison :=
  if !a.inError && b.inError then if a.cost < b.cost then .takeLeft else .preferLeft
  else if a.inError && !b.inError then if b.cost < a.cost then .takeRight else .preferRight
  else if a.cost < b.cost then
    if (b.cost - a.cost) * (1 + a.progress) > maxCostDifference then .takeLeft else .preferLeft
  else if b.cost < a.cost then
    if (a.cost - b.cost) * (1 + b.progress) > maxCostDifference then .takeRight else .preferRight
  else if a.dynamic > b.dynamic then .preferLeft
  else if b.dynamic > a.dynamic then .preferRight
  else .none

def standing (v : Nat) : ParseM Standing := do
  let progress ← onStack fun s => s.progress v
  view fun s =>
    let paused := (s.head v).isPaused
    { cost := s.cost v + if paused then ErrorCost.skippedTree else 0
      progress
      dynamic := (s.top v).dynamic
      inError := paused || s.state v == Automaton.errorState }

/-- Whether another reading, or a finished tree, would beat the reading `v` if it
cost `cost`. -/
def betterExists (v : Nat) (inError : Bool) (cost : Nat) : ParseM Bool := do
  if let some t := ← finished then
    if t.errorCost ≤ cost then return true
  let position := (← view (·.position v))
  let progress ← onStack fun s => s.progress v
  let status : Standing := { cost, inError, dynamic := ← view fun s => (s.top v).dynamic, progress }
  for i in [0:(← view (·.size))] do
    if ← view fun s => i != v && (s.head i).isActive && s.position i ≥ position then
      match compareStandings status (← standing i) with
      | .takeRight => return true
      | .preferRight => if ← view (·.canMerge i v) then return true
      | _ => pure ()
  return false

variable (inp : Input)

/-- Reduces the top of the reading `v` by the completed item. Returns the first new
reading, if there is one that was not merged into another. -/
def reduce (v item : Nat) : ParseM (Option Nat) := do
  let g := inp.grammar
  let it := g.item item
  let initial := (← view (·.size))
  let slices ← onStack fun s => s.popCount v it.consumed
  let halted := (← view (·.haltedCount))
  let mut removed := 0
  -- slices of one version stand together
  let mut k := 0
  for _ in [0:slices.size] do
    if k ≥ slices.size then break
    let slice := slices.getD k default
    let same := (slices.toList.drop k).takeWhile fun sl => sl.version == slice.version
    k := k + same.length
    let w := slice.version - removed
    if w > maxReadings + overflow + halted then
      modifyStack fun s => s.remove w
      removed := removed + 1
    else
      let pos := (← view (·.position w))
      let build (sl : Slice) : Tree × List Tree :=
        let (inner, extras) := Tree.splitExtras sl.trees
        (Tree.make g inp.src it.head it.marks inner pos, extras)
      let (tree, extras) := (same.drop 1).foldl (fun best sl =>
        let next := build sl
        if next.1.betterThan best.1 then next else best) (build slice)
      let state := (← view (·.state w))
      let next ← goto state it.head
      modifyStack fun s => s.push g w (some (tree.favour it.dynamic)) next
      for e in extras do
        modifyStack fun s => s.push g w (some e) next
      for j in [0:w] do
        if j != v then
          if ← onStack fun s => s.merge g j w then
            removed := removed + 1
            break
  return if (← view (·.size)) > initial then some initial else none

def lex (v : Nat) : ParseM Tree := do
  let (state, advanced, position) ← view fun s => (s.state v, s.hasAdvanced v, s.position v)
  let st := (← get).state state
  let inError := state == Automaton.errorState
  return .leaf (Lexer.token inp.grammar inp.scanner inp.src inp.anyToken st inError
    (!inError && advanced) position)

/-- Ends a reading: its trees become the children of a root, which is kept if it is
better than the one found before. -/
def accept (v : Nat) (lookahead : Tree) : ParseM Unit := do
  let g := inp.grammar
  modifyStack fun s => s.push g v (some lookahead) Automaton.startState
  let slices ← onStack fun s => s.popAll v
  for slice in slices do
    let r := slice.trees.reverse
    let after := (r.takeWhile Tree.extra).reverse
    match r.dropWhile Tree.extra with
    | [] => pure ()
    | t :: before =>
      let root := Tree.make g inp.src t.symbol t.info.marks
        (before.reverse ++ t.children ++ after) 0
      modifyThe State fun ⟨s, finished, n⟩ =>
        let finished := match finished with
          | some old => if root.betterThan old then some root else some old
          | none => some root
        ⟨s, finished, n + 1⟩
  if let some sl := slices[0]? then modifyStack fun s => s.remove sl.version
  modifyStack fun s => s.halt v

/-- Goes back `depth` trees to the state `goal`, wrapping what was skipped. -/
def recoverTo (v depth goal : Nat) : ParseM Bool := do
  let g := inp.grammar
  let slices ← onStack fun s => s.popCount v depth
  let mut previous : Option Nat := none
  for slice in slices do
    let w := slice.version
    if previous == some w then pure ()
    else if (← view (·.state w)) != goal then modifyStack fun s => s.halt w
    else
      let below ← onStack fun s => s.popError w
      let trees := match below with
        | t :: _ => t.children ++ slice.trees
        | [] => slice.trees
      let (inner, extras) := Tree.splitExtras trees
      unless inner.isEmpty do
        let e := (Tree.make g inp.src Grammar.errorSymbol #[] inner 0).setExtra true
        modifyStack fun s => s.push g w (some e) goal
      for e in extras do
        modifyStack fun s => s.push g w (some e) goal
      previous := some w
  return previous.isSome

/-- Deals with a token in the error state: goes back to a state that can use it, if
that pays, and also skips it. -/
def recover (v : Nat) (lookahead : Tree) : ParseM Unit := do
  let g := inp.grammar
  let src := inp.src
  let before := (← view (·.size))
  let position := (← view (·.position v))
  let landmarks := (← view fun s => (s.head v).landmarks)
  let progress ← onStack fun s => s.progress v
  let cost := (← view (·.cost v))
  let mut recovered := false
  if !lookahead.isError then
    for mark in landmarks.getD #[] do
      if mark.state == Automaton.errorState || mark.position == position then continue
      let depth := if progress > 0 then mark.depth + 1 else mark.depth
      if ← view fun s => (List.range before).any fun j =>
          s.state j == mark.state && s.position j == position then
        continue
      let newCost := cost +
        (src.offset position - src.offset mark.position) * ErrorCost.skippedByte +
        (src.row position - src.row mark.position) * ErrorCost.skippedRow
      if ← betterExists v false newCost then break
      unless (← actionsOn mark.state lookahead.symbol).isEmpty do
        if ← recoverTo inp v depth mark.state then
          recovered := true
          break
  -- readings that were given up on the way
  for k in [0:(← view (·.size)) - before] do
    let i := (← view (·.size)) - 1 - k
    if i ≥ before && !(← view fun s => (s.head i).isActive) then modifyStack fun s => s.remove i
  if lookahead.symbol == Grammar.endToken then
    let e := Tree.make g src Grammar.errorSymbol #[] [] position
    modifyStack fun s => s.push g v (some e) Automaton.startState
    accept inp v lookahead
    return
  if recovered && (← view (·.size)) > maxReadings then
    modifyStack fun s => s.halt v
    return
  let newCost := cost + ErrorCost.skippedTree +
    (src.offset lookahead.stop - src.offset position) * ErrorCost.skippedByte +
    (src.row lookahead.stop - src.row position) * ErrorCost.skippedRow
  if ← betterExists v false newCost then
    modifyStack fun s => s.halt v
    return
  let lookahead := if g.extras.contains lookahead.symbol && !lookahead.isError
    then lookahead.setExtra true else lookahead
  let skipped := Tree.make g src Grammar.errorChain #[] [lookahead] position
  let chain ← if progress > 0 then
      let slices ← onStack fun s => s.popCount v 1
      match slices[0]? with
      | some first =>
        modifyStack fun s => { s with heads := s.heads.extract 0 (first.version + 1) }
        modifyStack fun s => s.renumber first.version v
        pure (Tree.make g src Grammar.errorChain #[] (first.trees ++ [skipped]) position)
      | none => pure skipped
    else pure skipped
  modifyStack fun s => s.push g v (some chain) Automaton.errorState

/-- All reductions that some token, or the given one, allows in the state of `v`. -/
def potentialReductions (state : Nat) (token : Option Nat) : ParseM (Array Nat × Bool) := do
  let g := inp.grammar
  let mut items : Array Nat := #[]
  let mut shifts := false
  let st := (← get).state state
  let tokens := match token with
    | some t => [t]
    | none => (List.range g.tokenCount).drop 1
  for t in tokens do
    if st.valid.contains t || state == Automaton.errorState then
      for a in ← actionsOn state t do
        match a with
        | .shift continues => if !continues then shifts := true
        | .recover => shifts := true
        | .reduce i =>
          let it := g.item i
          if it.consumed > 0 && !items.any (fun j =>
              (g.item j).head == it.head && (g.item j).consumed == it.consumed) then
            items := items.push i
        | _ => pure ()
  return (items, shifts)

/-- Performs reductions on the reading `first` and on those that come of it, for any
lookahead or for the given one. Says whether that token can then be used. -/
def reduceAll (first : Nat) (token : Option Nat) : ParseM Bool := do
  let initial := (← view (·.size))
  let mut usable := false
  let mut v := first
  for round in [0:1000] do
    let count := (← view (·.size))
    if v ≥ count then break
    let mut merged := false
    for j in [initial:v] do
      if ← onStack fun s => s.merge inp.grammar j v then
        merged := true
        break
    if merged then continue
    let (items, shifts) ← potentialReductions inp ((← view (·.state v))) token
    let mut last : Option Nat := none
    for i in items do
      last ← reduce inp v i
    if shifts then usable := true
    else if let (some w, true) := (last, decide (round < maxReadings)) then
      modifyStack fun s => s.renumber w v
      continue
    else if token.isSome then modifyStack fun s => s.remove v
    v := if v == first then count else v + 1
  return usable

/-- Begins recovery of the reading `v` at a token that does not fit. -/
def handleError (v : Nat) (lookahead : Tree) : ParseM Unit := do
  let g := inp.grammar
  let before := (← view (·.size))
  let _ ← reduceAll inp v none
  let count := (← view (·.size))
  let position := (← view (·.position v))
  let mut supposed := false
  let mut w := v
  for _ in [0:count + 1] do
    if w ≥ count then break
    if !supposed then
      let state := (← view (·.state w))
      for token in (List.range g.tokenCount).drop 1 do
        if !((← get).state state).valid.contains token then continue
        let acts ← actionsOn state token
        if !acts.any (fun a => match a with | .shift _ => true | _ => false) then continue
        let next ← goto state token
        if next == Automaton.errorState || next == state then continue
        let reduces := (← actionsOn next lookahead.symbol).any fun a => match a with
          | .reduce _ => true
          | _ => false
        if reduces then
          let copy := (← view (·.size))
          modifyStack fun s => s.copy w
          modifyStack fun s => s.push g copy (some (.absent token position)) next
          let wanted := if lookahead.symbol == Grammar.endToken then none else some lookahead.symbol
          if ← reduceAll inp copy wanted then
            supposed := true
            break
    modifyStack fun s => s.push g w none Automaton.errorState
    w := if w == v then before else w + 1
  for _ in [before:count] do
    let _ ← onStack fun s => s.merge g v before
  modifyStack fun s => s.recordLandmarks v maxDepth
  recover inp v lookahead

/-- Follows the reading `v` until it has used one token, waits or ends. -/
def advance (v : Nat) : ParseM Unit := do
  let g := inp.grammar
  let mut lookahead ← lex inp v
  let mut state := (← view (·.state v))
  for _ in [0:10000] do
    let mut reduced := false
    let mut last : Option Nat := none
    for a in ← actionsOn state lookahead.symbol do
      match a with
      | .shift true => pure ()
      | .shift false =>
        let next ← goto state lookahead.symbol
        let t := lookahead.setExtra false
        modifyStack fun s => s.push g v (some t) next
        return
      | .shiftExtra =>
        let t := lookahead.setExtra true
        modifyStack fun s => s.push g v (some t) state
        return
      | .reduce i =>
        reduced := true
        if let some w ← reduce inp v i then last := some w
      | .accept =>
        accept inp v lookahead
        return
      | .recover =>
        recover inp v lookahead
        return
    if let some w := last then
      modifyStack fun s => s.renumber w v
      state := (← view (·.state v))
      continue
    if reduced then
      modifyStack fun s => s.halt v
      return
    -- a keyword may be a plain word here
    if lookahead.info.keyword && lookahead.symbol != g.word then
      let st := (← get).state state
      let isReserved := g.reserved.contains lookahead.symbol && !st.valid.contains Grammar.freeMark
      if !isReserved && st.valid.contains g.word then
        lookahead := lookahead.setSymbol g.word
        continue
    if state == Automaton.errorState then
      recover inp v lookahead
      return
    let t := lookahead
    modifyStack fun s => s.pause v t
    return

/-- Drops readings that are clearly worse, merges those that coincide, orders the rest
by promise, and starts recovery where nothing else is left. Returns the least cost. -/
def condense : ParseM (Option Nat) := do
  let g := inp.grammar
  let mut least : Option Nat := none
  let mut i := 0
  for _ in [0:1000] do
    if i ≥ (← view (·.size)) then break
    if (← view fun s => (s.head i).isHalted) then
      modifyStack fun s => s.remove i
      continue
    let si ← standing i
    if !si.inError then
      least := some (match least with
        | some m => min m si.cost
        | none => si.cost)
    let mut j := 0
    let mut kept := true
    for _ in [0:1000] do
      if !kept || j ≥ i then break
      let sj ← standing j
      match compareStandings sj si with
      | .takeLeft =>
        let k := i
        modifyStack fun s => s.remove k
        kept := false
      | .preferLeft | .none =>
        let (a, b) := (j, i)
        if ← onStack fun s => s.merge g a b then kept := false
        else j := j + 1
      | .preferRight =>
        let (a, b) := (j, i)
        if ← onStack fun s => s.merge g a b then kept := false
        else
          modifyStack fun s => s.swap b a
          j := j + 1
      | .takeRight =>
        let k := j
        modifyStack fun s => s.remove k
        i := i - 1
    if kept then i := i + 1
  modifyStack fun s => { s with heads := s.heads.extract 0 maxReadings }
  let mut running := false
  let mut k := 0
  let total := (← view (·.size))
  for _ in [0:total] do
    let v := k
    match ← view fun s => (s.head v).status with
    | .paused lookahead =>
      if !running && (← accepted) < maxReadings then
        least := some (← view (·.cost v))
        modifyStack fun s => s.setStatus v .active
        handleError inp v lookahead
        running := true
        k := k + 1
      else modifyStack fun s => s.remove v
    | _ =>
      running := true
      k := k + 1
  return least

/-- Parses in rounds until no reading is left or a finished tree is better than all. -/
def loop : (fuel lastPosition : Nat) → ParseM Unit
  | 0, _ => return
  | fuel + 1, lastPosition => do
    let mut last := lastPosition
    let mut v := 0
    for _ in [0:1000] do
      if v ≥ (← view (·.size)) then break
      for _ in [0:100000] do
        if !(← view fun s => (s.head v).isActive) then break
        advance inp v
        let position := (← view (·.position v))
        if position > last || (v > 0 && position == last) then
          last := position
          break
      v := v + 1
    let count := v
    let least ← condense inp
    if let some t := ← finished then
      match least with
      | some m => if t.errorCost < m then return
      | none => return
    if count == 0 then return
    loop fuel last

/-- The best tree of an input, and the automaton with the states that were built. -/
def run (a : Automaton) (scanner : Scanner) (bytes : Array UInt8) : Option Tree × Source × Automaton :=
  let src := Source.ofBytes bytes
  let input : Input :=
    { src, scanner, grammar := a.grammar, anyToken := (a.state Automaton.errorState).wanted }
  let ((_, a), st) := (loop input (20 * src.size + 1000) 0).run a |>.run
    { stack := .start, finished := none, accepted := 0 }
  (st.finished, src, a)

end Parser

end FunctionInventory
