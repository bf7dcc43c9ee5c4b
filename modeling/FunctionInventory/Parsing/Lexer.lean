import FunctionInventory.Parsing.Automaton
import FunctionInventory.Parsing.Source

/-!
# Reading one token

All patterns that are looked for are matched at once, one unit at a time. The
longest match wins; where several end together, the priorities of the tokens decide.
-/
namespace FunctionInventory

namespace Lexer

/-- A token that can still match, and what remains of its pattern. -/
structure Live where
  candidate : Candidate
  rest : Pattern

/-- Of two completed tokens, whether the first is preferred. -/
def prefers (a b : Candidate) : Bool :=
  if a.lexeme.priority != b.lexeme.priority then a.lexeme.priority > b.lexeme.priority
  else if a.lexeme.weight != b.lexeme.weight then a.lexeme.weight > b.lexeme.weight
  else a.token < b.token

/-- The preferred token among those that are complete. -/
def completed (live : List Live) : Option Candidate :=
  live.foldl (fun best l =>
    if l.rest.nullable then
      match best with
      | some b => if prefers b l.candidate then best else some l.candidate
      | none => some l.candidate
    else best) none

/-- The outcome of reading: a token with its extent, or where reading began and how
far it got. -/
inductive Outcome where
  | found (token start stop : Nat)
  | none (start reached : Nat)
deriving Inhabited

/-- Continues a match at `pos`. `blanksLeft` says whether blanks may still be skipped,
`best` is the longest match so far. -/
def run (src : Source) (blanks : CharSet) (fresh : List Live) (endIsToken : Bool) :
    (fuel pos start : Nat) → (blanksLeft : Bool) → List Live → Option (Nat × Nat × Nat) → Outcome
  | 0, pos, start, _, _, best => finish pos start best
  | fuel + 1, pos, start, blanksLeft, live, best =>
    let complete := completed live
    let best := match complete with
      | some c => some (c.token, start, pos)
      | Option.none => best
    if pos ≥ src.size then
      if blanksLeft && endIsToken then .found Grammar.endToken pos pos else finish pos start best
    else
      let c := src.peek pos
      let next := live.filterMap fun l =>
        let r := l.rest.derive c
        if r.isNever then Option.none else some { l with rest := r }
      let skips := blanksLeft && blanks.contains c
      if next.isEmpty && !skips then finish pos start best
      else
        let goesOn := match complete with
          | Option.none => true
          | some done =>
            let priority := next.foldl (fun m l => max m l.candidate.lexeme.priority)
              (if skips then 0 else -1000)
            if priority != done.lexeme.priority then priority > done.lexeme.priority
            else !next.isEmpty &&
              (!blanksLeft || next.any fun l => l.candidate.token == done.token)
        if !goesOn then finish pos start best
        else
          run src blanks fresh endIsToken fuel (pos + 1) (if next.isEmpty then pos + 1 else start)
            skips (if skips then next ++ fresh else next) best
where
  finish (pos start : Nat) : Option (Nat × Nat × Nat) → Outcome
    | some (t, a, b) => .found t a b
    | Option.none => .none start pos

/-- Reads one of the wanted tokens at `pos`. -/
def read (src : Source) (blanks : CharSet) (wanted : List Candidate) (endIsToken : Bool)
    (pos : Nat) : Outcome :=
  let live := wanted.map fun c => ⟨c, c.lexeme.pattern⟩
  run src blanks (live.filter fun l => !l.candidate.lexeme.immediate) endIsToken
    (src.size - pos + 1) pos pos true live none

end Lexer

/-- A scanner for the tokens that no pattern describes: given which external tokens
are possible and a position, the number of the token in the list of externals and its
extent. -/
abbrev Scanner := (possible : Nat → Bool) → Source → (pos : Nat) → Option (Nat × Nat × Nat)

/-- A token as it was read at some position; `error` covers input that starts no token. -/
structure Token where
  symbol : Nat
  start : Nat
  stop : Nat
  keyword : Bool := false
deriving Inhabited, Repr

namespace Lexer

/-- Whether a keyword counts as one in a state: it is expected there, or reserved. -/
def keywordApplies (g : Grammar) (st : LrState) (keyword : Nat) : Bool :=
  st.valid.contains keyword || (g.reserved.contains keyword && !st.valid.contains Grammar.freeMark)

/-- Skips units until a token of `wanted` can be read; the skipped part is an error. -/
def skipTo (src : Source) (blanks : CharSet) (wanted : List Candidate) :
    (fuel pos start stop : Nat) → Token
  | 0, _, start, stop => ⟨Grammar.errorSymbol, start, stop, false⟩
  | fuel + 1, pos, start, stop =>
    match read src blanks wanted true pos with
    | .found .. => ⟨Grammar.errorSymbol, start, stop, false⟩
    | .none _ reached =>
      if reached == stop then
        if reached ≥ src.size then ⟨Grammar.errorSymbol, start, stop, false⟩
        else skipTo src blanks wanted fuel (reached + 1) start (reached + 1)
      else skipTo src blanks wanted fuel reached start reached

/-- Reads a token in the state `st` at `pos`. External tokens come first; then the
tokens that the state expects; then any token; then input is skipped. An empty
external token is refused unless `emptyAllowed`. -/
def token (g : Grammar) (scanner : Scanner) (src : Source) (errorWanted : List Candidate)
    (st : LrState) (inError emptyAllowed : Bool) (pos : Nat) : Token :=
  let externals := g.externals.toArray
  let possible (k : Nat) : Bool := (externals[k]?.map st.valid.contains).getD false
  let external : Option Token :=
    if inError || !g.externals.any st.valid.contains then none
    else match scanner possible src pos with
      | some (k, start, stop) =>
        let t := externals.getD k 0
        if stop ≤ pos && (!emptyAllowed || g.extras.contains t) then none
        else some ⟨t, start, stop, false⟩
      | none => none
  match external with
  | some t => t
  | none =>
    let asWord (outcome : Outcome) (state : LrState) (anyKeyword : Bool) : Option Token :=
      match outcome with
      | .found t start stop =>
        if t == g.word then
          match g.keywords[src.text start stop]? with
          | some k =>
            if anyKeyword || keywordApplies g state k then some ⟨k, start, stop, true⟩
            else some ⟨t, start, stop, false⟩
          | none => some ⟨t, start, stop, false⟩
        else some ⟨t, start, stop, false⟩
      | .none .. => none
    let first := if inError then Outcome.none pos pos
      else read src g.blanks st.wanted (st.valid.contains Grammar.endToken) pos
    match asWord first st false with
    | some t => t
    | none =>
      let second := read src g.blanks errorWanted true pos
      match asWord second st inError with
      | some t => t
      | none =>
        match second with
        | .none start reached =>
          if reached == start then
            if reached ≥ src.size then ⟨Grammar.errorSymbol, start, start, false⟩
            else skipTo src g.blanks errorWanted (src.size + 1) (reached + 1) start (reached + 1)
          else skipTo src g.blanks errorWanted (src.size + 1) reached start reached
        | .found .. => ⟨Grammar.errorSymbol, pos, pos, false⟩

end Lexer

end FunctionInventory
