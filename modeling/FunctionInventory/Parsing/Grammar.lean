import FunctionInventory.Parsing.Rule
import FunctionInventory.Parsing.TokenSet
import Std.Data.HashMap
import Std.Data.HashSet

/-!
# Compiled grammars

`Grammar.compile` numbers the symbols of a specification and turns its rules into
items. An item is a production with a mark in it; two items that differ only in
symbols already passed are one item. Symbol numbers start with the end of input and
the word token, then come the other tokens, the external tokens and the rules.
-/
namespace FunctionInventory

/-- How a symbol appears in the tree. -/
structure SymbolInfo where
  name : String
  visible : Bool
  named : Bool
deriving Repr, Inhabited

/-- One position of a production. -/
structure Step where
  symbol : Nat
  prec : Precedence
  assoc : Option Assoc
  as : Option Alias
  field : Option String
  free : Bool
deriving BEq, Hashable, Repr, Inhabited

structure Production where
  steps : List Step
  dynamic : Int
deriving BEq, Hashable, Repr, Inhabited

/-- What a production says about a child: the alias and the field it gets. -/
structure ChildMark where
  as : Option Alias
  field : Option String
deriving BEq, Hashable, Repr, Inhabited

/-- What follows the mark of an item: nothing, or a symbol, the tokens it can start
with and, unless it is the last, the tokens that the symbol after it can start with. -/
inductive Ahead where
  | done
  | symbol (s : Nat) (starts : TokenSet) (following : Option TokenSet) (advanced : Nat)
deriving Inhabited

/-- A production with a mark behind its first `consumed` symbols. `prec` and `assoc`
are those of the symbol before the mark. -/
structure Item where
  head : Nat
  consumed : Nat
  marks : Array ChildMark
  dynamic : Int
  prec : Precedence
  assoc : Option Assoc
  ahead : Ahead
deriving Inhabited

/-- A production of some rule starts with the rule `target`; `following` are the
tokens that can come next in that production, none if it ends there. -/
structure Edge where
  target : Nat
  following : TokenSet
  last : Bool
deriving Inhabited

/-- A token the lexer looks for. -/
structure Candidate where
  token : Nat
  lexeme : Lexeme
deriving Inhabited

structure Grammar where
  tokenCount : Nat
  symbols : Array SymbolInfo
  lexemes : Array (Option Lexeme)
  word : Nat
  keywords : Std.HashMap String Nat
  reserved : TokenSet
  extras : TokenSet
  recovery : TokenSet
  externals : List Nat
  blanks : CharSet
  items : Array Item
  edges : Array (Array Edge)
  starts : Array (Array (Nat × Nat))
  orders : List (List Rank)
  isRepeat : Array Bool
deriving Inhabited

namespace Grammar

/-- The number of the end of input. -/
def endToken : Nat := 0

/-- A member of token sets that says: the word here may be a reserved one. -/
def freeMark : Nat := 255

/-- The symbol of a skipped part of the input. -/
def errorSymbol : Nat := 65535

/-- The symbol that chains skipped parts. -/
def errorChain : Nat := 65534

/-- The item before the start rule, and the item behind it. -/
def startItem : Nat := 0

def acceptItem : Nat := 1

/-- The tokens that occur in a rule, in order. -/
def lexemesOf : Rule → List Lexeme
  | .token l => [l]
  | .seq a b | .choice a b => lexemesOf a ++ lexemesOf b
  | .repeat1 r | .prec _ _ r | .dynamic _ r | .field _ r | .aliased _ r | .freeWords r =>
    lexemesOf r
  | .blank | .ref _ => []

/-- Repetitions found so far, each with the name of the rule that stands for it. -/
structure Repeats where
  owner : String
  count : Nat
  known : List (Rule × String)
  added : Array (String × Rule)

/-- Replaces each repetition by a reference to a rule that is either one occurrence
or two repetitions after each other. Equal repetitions share their rule. -/
def expandRepeats : Rule → StateM Repeats Rule
  | .seq a b => return .seq (← expandRepeats a) (← expandRepeats b)
  | .choice a b => return .choice (← expandRepeats a) (← expandRepeats b)
  | .prec p s r => return .prec p s (← expandRepeats r)
  | .dynamic n r => return .dynamic n (← expandRepeats r)
  | .field f r => return .field f (← expandRepeats r)
  | .aliased a r => return .aliased a (← expandRepeats r)
  | .freeWords r => return .freeWords (← expandRepeats r)
  | .repeat1 r => do
    let inner ← expandRepeats r
    let st ← get
    match st.known.lookup inner with
    | some name => return .ref name
    | none =>
      let name := st.owner ++ "_repeat" ++ toString (st.count + 1)
      set { st with
        count := st.count + 1
        known := (inner, name) :: st.known
        added := st.added.push (name, .choice (.seq (.ref name) (.ref name)) inner) }
      return .ref name
  | r => return r

/-- The choice-free forms of a rule. -/
def alternatives : Rule → List Rule
  | .seq a b => (alternatives a).flatMap fun x => (alternatives b).map (.seq x)
  | .choice a b => alternatives a ++ alternatives b
  | .prec p s r => (alternatives r).map (.prec p s)
  | .dynamic n r => (alternatives r).map (.dynamic n)
  | .field f r => (alternatives r).map (.field f)
  | .aliased a r => (alternatives r).map (.aliased a)
  | .freeWords r => (alternatives r).map .freeWords
  | r => [r]

/-- Of two dynamic precedences the one of larger size; the first on a tie. -/
def stronger (a b : Int) : Int := if b.natAbs > a.natAbs then b else a

def dynamicOf : Rule → Int
  | .seq a b => stronger (dynamicOf a) (dynamicOf b)
  | .dynamic n r => stronger n (dynamicOf r)
  | .prec _ _ r | .field _ r | .aliased _ r | .freeWords r => dynamicOf r
  | _ => 0

/-- Applies `f` to the last element. -/
def mapLast (f : α → α) : List α → List α
  | [] => []
  | [x] => [f x]
  | x :: xs => x :: mapLast f xs

/-- The steps of a choice-free rule. `around` holds the marks of the enclosing rules.
A precedence that does not reach the end of the production is taken back from its
last step. -/
def stepsOf (resolve : Rule → Option Nat) (around : Step) (atEnd : Bool) : Rule → List Step
  | .seq a b => stepsOf resolve around false a ++ stepsOf resolve around atEnd b
  | .prec p s r =>
    let inner : Step := { around with
      prec := if p == .none then around.prec else p, assoc := s.orElse fun _ => around.assoc }
    let steps := stepsOf resolve inner atEnd r
    if atEnd then steps
    else mapLast (fun st => { st with
      prec := if p == .none then st.prec else around.prec
      assoc := if s.isSome then around.assoc else st.assoc }) steps
  | .dynamic _ r => stepsOf resolve around atEnd r
  | .field f r => stepsOf resolve { around with field := some f } atEnd r
  | .aliased a r => stepsOf resolve { around with as := some a } atEnd r
  | .freeWords r => stepsOf resolve { around with free := true } atEnd r
  | r => match resolve r with
    | some s => [{ around with symbol := s }]
    | none => []

def productionsOf (resolve : Rule → Option Nat) (r : Rule) : List Production :=
  let around : Step := ⟨0, .none, none, none, none, false⟩
  let all := (alternatives r).map fun a => (⟨stepsOf resolve around true a, dynamicOf a⟩ : Production)
  (all.foldl (fun (seen, out) p => if seen.contains p then (seen, out) else (seen.insert p, p :: out))
    ((∅ : Std.HashSet Production), [])).2.reverse

/-- Puts the steps of an inlined production in the place of `s`. -/
def splice (s : Step) (p : Production) : List Step :=
  mapLast (fun st => { st with
      prec := if st.prec == .none then s.prec else st.prec
      assoc := st.assoc.orElse fun _ => s.assoc })
    (p.steps.map fun st => { st with
      as := s.as.orElse fun _ => st.as
      field := s.field.orElse fun _ => st.field
      free := s.free || st.free })

/-- All ways to replace inlined symbols by their productions. -/
def inlineSteps (inlined : Nat → Option (List Production)) :
    Nat → List Step → Int → List Production
  | 0, steps, d => [⟨steps, d⟩]
  | _ + 1, [], d => [⟨[], d⟩]
  | fuel + 1, s :: rest, d =>
    match inlined s.symbol with
    | some ps => ps.flatMap fun p => inlineSteps inlined fuel (splice s p ++ rest) (stronger d p.dynamic)
    | none => (inlineSteps inlined fuel rest d).map fun p => { p with steps := s :: p.steps }

/-- The numbering of a specification's symbols. -/
structure Numbering where
  lexemes : Array Lexeme
  external : Array String
  rules : Array String
  tokenNames : Std.HashMap String Nat
  lexemeIndex : Std.HashMap Lexeme Nat
  ruleIndex : Std.HashMap String Nat

def Numbering.tokenCount (n : Numbering) : Nat := 1 + n.lexemes.size + n.external.size

def Numbering.resolve (n : Numbering) : Rule → Option Nat
  | .token l => n.lexemeIndex[l]?
  | .ref name => n.tokenNames[name]?.orElse fun _ => n.ruleIndex[name]?
  | _ => none

/-- How often each token occurs in the rules, in order of first occurrence. -/
def lexemeCounts (rules : List (String × Rule)) : Array Lexeme × Std.HashMap Lexeme Nat :=
  rules.foldl (fun acc r => (lexemesOf r.2).foldl (fun (order, counts) l =>
    match counts[l]? with
    | some k => (order, counts.insert l (k + 1))
    | none => (order.push l, counts.insert l 1)) acc) (#[], {})

/-- A rule that is one token, used nowhere else, names that token. -/
def namesToken (counts : Std.HashMap Lexeme Nat) (r : Rule) : Option Lexeme :=
  match r.token? with
  | some l => if counts[l]? == some 1 then some l else none
  | none => none

def number (spec : Specification) (rules : List (String × Rule)) : Numbering := Id.run do
  let (order, counts) := lexemeCounts rules
  let wordLexeme := (rules.lookup spec.word).bind Rule.token?
  let lexemes := match wordLexeme with
    | some w => #[w] ++ order.filter (· != w)
    | none => order
  let mut lexemeIndex : Std.HashMap Lexeme Nat := {}
  for h : i in [0:lexemes.size] do
    lexemeIndex := lexemeIndex.insert lexemes[i] (i + 1)
  let mut tokenNames : Std.HashMap String Nat := {}
  let mut ruleNames : Array String := #[]
  for (name, r) in rules do
    match namesToken counts r with
    | some l => tokenNames := tokenNames.insert name (lexemeIndex.getD l 0)
    | none => ruleNames := ruleNames.push name
  let mut external : Array String := #[]
  for name in spec.externals do
    if !tokenNames.contains name && !lexemeIndex.contains (.ofLiteral name) then
      tokenNames := tokenNames.insert name (1 + lexemes.size + external.size)
      external := external.push name
  let mut ruleIndex : Std.HashMap String Nat := {}
  for h : i in [0:ruleNames.size] do
    ruleIndex := ruleIndex.insert ruleNames[i] (1 + lexemes.size + external.size + i)
  return { lexemes, external, rules := ruleNames, tokenNames, lexemeIndex, ruleIndex }

/-- A symbol that never occurs without an alias is known by its most frequent one. -/
def defaultAlias (steps : List Step) : Option Alias :=
  if steps.any (·.as.isNone) then none
  else
    let aliases := steps.filterMap (·.as)
    let best := aliases.foldl (fun (b : Option (Alias × Nat)) a =>
      let k := aliases.countP (· == a)
      match b with
      | some (_, m) => if k > m then some (a, k) else b
      | none => some (a, k)) none
    best.map (·.1)

/-- Items under construction, with the tables that identify equal ones. -/
structure ItemTable where
  items : Array Item
  suffixes : Std.HashMap (Step × Nat) Nat
  marks : Std.HashMap (ChildMark × Nat) Nat
  known : Std.HashMap (Nat × Int × Nat × Precedence × Option Assoc × Nat) Nat

def ItemTable.suffix (t : ItemTable) (s : Step) (rest : Nat) : Nat × ItemTable :=
  match t.suffixes[(s, rest)]? with
  | some i => (i, t)
  | none =>
    let i := t.suffixes.size + 1
    (i, { t with suffixes := t.suffixes.insert (s, rest) i })

def ItemTable.mark (t : ItemTable) (m : ChildMark) (before : Nat) : Nat × ItemTable :=
  match t.marks[(m, before)]? with
  | some i => (i, t)
  | none =>
    let i := t.marks.size + 1
    (i, { t with marks := t.marks.insert (m, before) i })

/-- The tokens a step can start with. -/
def stepFirst (tokenCount word : Nat) (first : Array TokenSet) (s : Step) : TokenSet :=
  if s.symbol < tokenCount then
    if s.free && s.symbol == word then TokenSet.ofList [s.symbol, freeMark]
    else .singleton s.symbol
  else first.getD (s.symbol - tokenCount) ∅

/-- The tokens each rule can start with: the least solution, by iteration. -/
def firstSets (tokenCount word : Nat) (productions : Array (List Production)) :
    Array TokenSet := Id.run do
  let mut first := Array.replicate productions.size (∅ : TokenSet)
  let mut changed := true
  for _ in [0:productions.size + 1] do
    if !changed then break
    changed := false
    for h : i in [0:productions.size] do
      let mut set := first.getD i ∅
      for p in productions[i] do
        if let s :: _ := p.steps then
          set := set.union (stepFirst tokenCount word first s)
      if !(set.subset (first.getD i ∅)) then
        first := first.setIfInBounds i set
        changed := true
  return first

/-- Adds the items of one production and returns the item behind its first symbol
(the whole item if it is empty). -/
def addItems (tokenCount word : Nat) (first : Array TokenSet) (head : Nat) (p : Production)
    (table : ItemTable) : Nat × ItemTable := Id.run do
  let steps := p.steps.toArray
  let n := steps.size
  let mut t := table
  -- identities of the remaining steps, from the right
  let mut suffixIds := Array.replicate (n + 1) 0
  for k in [0:n] do
    let i := n - 1 - k
    let (id, t') := t.suffix (steps.getD i default) (suffixIds.getD (i + 1) 0)
    t := t'
    suffixIds := suffixIds.setIfInBounds i id
  -- identities of the marks passed, from the left
  let mut markIds := Array.replicate (n + 1) 0
  let mut marks : Array ChildMark := #[]
  for i in [0:n] do
    let s := steps.getD i default
    let m : ChildMark := ⟨s.as, s.field⟩
    marks := marks.push m
    let (id, t') := t.mark m (markIds.getD i 0)
    t := t'
    markIds := markIds.setIfInBounds (i + 1) id
  -- items from the right, so that each knows the item behind its next symbol
  let mut behind := 0
  let mut entry := 0
  for k in [0:n + 1] do
    let i := n - k
    if i == 0 && n > 0 then break
    let before := if i == 0 then default else steps.getD (i - 1) default
    let prec := if i == 0 then Precedence.none else before.prec
    let assoc := if i == 0 then none else before.assoc
    let key := (head, p.dynamic, markIds.getD i 0, prec, assoc, suffixIds.getD i 0)
    match t.known[key]? with
    | some id => behind := id
    | none =>
      let ahead := if i == n then Ahead.done else
        let s := steps.getD i default
        let following := if i + 1 < n then
          some (stepFirst tokenCount word first (steps.getD (i + 1) default)) else none
        Ahead.symbol s.symbol (stepFirst tokenCount word first s) following behind
      let item : Item :=
        { head, consumed := i, marks := marks.extract 0 i, dynamic := p.dynamic, prec, assoc, ahead }
      let id := t.items.size
      t := { t with items := t.items.push item, known := t.known.insert key id }
      behind := id
    if i ≤ 1 then entry := behind
  return (entry, t)

/-- Whether a literal is spelled like a word. -/
def spellsWord (word : Pattern) (s : String) : Bool :=
  (s.toList.foldl (fun p c => p.derive c.toNat) word).nullable

/-- Turns a specification into the tables of a parser. Tokens that only unused rules
have do not exist for the lexer. -/
def compile (spec : Specification) : Grammar := Id.run do
  let used := spec.usedRules
  let numbering := number spec used
  -- repetitions become rules of their own
  let mut repeats : Repeats := ⟨"", 0, [], #[]⟩
  let mut rules : Array (String × Rule) := #[]
  for (name, r) in used do
    if numbering.ruleIndex.contains name then
      let (r', st) := (expandRepeats r).run { repeats with owner := name, count := 0 }
      repeats := st
      rules := rules.push (name, r')
  let plainCount := rules.size
  rules := rules ++ repeats.added
  let tokenCount := numbering.tokenCount
  let mut ruleIndex := numbering.ruleIndex
  for i in [plainCount:rules.size] do
    ruleIndex := ruleIndex.insert (rules.getD i default).1 (tokenCount + i)
  let names : Numbering := { numbering with ruleIndex, rules := rules.map (·.1) }
  let productions := rules.map fun r => productionsOf names.resolve r.2
  -- symbols as they appear in the tree
  let isHidden (name : String) : Bool := name.startsWith "_"
  let mut symbols : Array SymbolInfo := #[⟨"end", false, true⟩]
  for l in numbering.lexemes do
    symbols := symbols.push (match l.literal with
      | some s => ⟨s, true, false⟩
      | none => ⟨"", false, false⟩)
  for name in numbering.external do
    symbols := symbols.push ⟨name, !isHidden name, true⟩
  for (name, id) in numbering.tokenNames.toList do
    symbols := symbols.setIfInBounds id ⟨name, !isHidden name, true⟩
  for h : i in [0:rules.size] do
    let name := rules[i].1
    symbols := symbols.push
      ⟨name, !isHidden name && !spec.supertypes.contains name && i < plainCount, true⟩
  -- aliases that hold everywhere become the names of their symbols
  let isInlined (s : Nat) : Bool :=
    s ≥ tokenCount && spec.inlined.contains (rules.getD (s - tokenCount) default).1
  let mut uses : Array (List Step) := Array.replicate symbols.size []
  for ps in productions do
    for p in ps do
      for s in p.steps do
        uses := uses.modify s.symbol (s :: ·)
  let extraTokens := spec.extras.filterMap fun n => numbering.tokenNames[n]?
  let mut defaults : Array (Option Alias) := #[]
  for h : i in [0:symbols.size] do
    defaults := defaults.push
      (if isInlined i || extraTokens.contains i then none else defaultAlias (uses.getD i []).reverse)
  for h : i in [0:symbols.size] do
    if let some (some a) := defaults[i]? then
      symbols := symbols.setIfInBounds i ⟨a.name, true, a.named⟩
  let productions := productions.map fun ps => ps.map fun p =>
    { p with steps := p.steps.map fun s =>
      if s.as.isSome && s.as == defaults.getD s.symbol none then { s with as := none } else s }
  -- inlined rules give way to their productions
  let inlined (s : Nat) : Option (List Production) :=
    if isInlined s then productions[s - tokenCount]? else none
  let expanded := productions.map fun ps => ps.flatMap fun p => inlineSteps inlined 100 p.steps p.dynamic
  let word := (numbering.tokenNames[spec.word]?).getD 0
  let first := firstSets tokenCount word expanded
  -- items, and where each rule can begin
  let startSymbol := tokenCount
  let accept : Item := ⟨startSymbol, 1, #[], 0, .none, none, .done⟩
  let start : Item := { accept with
    consumed := 0
    ahead := .symbol startSymbol (first.getD 0 ∅) none acceptItem }
  let mut table : ItemTable := ⟨#[start, accept], {}, {}, {}⟩
  let mut starts : Array (Array (Nat × Nat)) := Array.replicate (symbols.size + 1) #[]
  let mut edges : Array (Array Edge) := #[]
  for h : i in [0:expanded.size] do
    let head := tokenCount + i
    let mut out : Array Edge := #[]
    if isInlined head then
      edges := edges.push #[]
    else
      for p in expanded[i] do
        let (entry, t) := addItems tokenCount word first head p table
        table := t
        match p.steps with
        | [] => starts := starts.modify symbols.size (·.push (head, entry))
        | s :: rest =>
          unless (starts.getD s.symbol #[]).contains (head, entry) do
            starts := starts.modify s.symbol (·.push (head, entry))
          if s.symbol ≥ tokenCount then
            let target := s.symbol - tokenCount
            let following := match rest with
              | [] => ∅
              | r :: _ => stepFirst tokenCount word first r
            match out.findIdx? (·.target == target) with
            | some k => out := out.modify k fun e =>
                { e with following := e.following.union following, last := e.last || rest.isEmpty }
            | none => out := out.push ⟨target, following, rest.isEmpty⟩
      edges := edges.push out
  -- tokens by number
  let lexemes : Array (Option Lexeme) :=
    #[none] ++ numbering.lexemes.map some ++ numbering.external.map fun _ => none
  let wordPattern := ((lexemes.getD word none).map (·.pattern)).getD .never
  let mut keywords : Std.HashMap String Nat := {}
  for h : i in [0:lexemes.size] do
    if let some l := lexemes[i] then
      if let some s := l.literal then
        if spellsWord wordPattern s then keywords := keywords.insert s i
  let tokenNamed (n : String) : Option Nat :=
    (numbering.tokenNames[n]?).orElse fun _ => numbering.lexemeIndex[Lexeme.ofLiteral n]?
  let uncertain := spec.uncertain.filterMap tokenNamed
  return {
    tokenCount, symbols, lexemes, word, keywords
    reserved := .ofList (spec.reserved.filterMap fun s => keywords[s]?)
    extras := .ofList extraTokens
    recovery := .ofList ((List.range (1 + numbering.lexemes.size)).filter (!uncertain.contains ·))
    externals := spec.externals.map fun n => (tokenNamed n).getD 0
    blanks := spec.blanks
    items := table.items
    edges, starts
    orders := spec.orders
    isRepeat := (Array.range rules.size).map (· ≥ plainCount) }

/-- The tokens the lexer looks for when the tokens of `valid` are possible: keywords
are looked for as words. -/
def candidates (g : Grammar) (valid : TokenSet) : List Candidate := Id.run do
  let isKeyword (i : Nat) (l : Lexeme) : Bool := match l.literal with
    | some s => g.keywords[s]? == some i
    | none => false
  let mut found : List Candidate := []
  let mut wantsWord := valid.contains g.word
  for k in [0:g.lexemes.size] do
    let i := g.lexemes.size - 1 - k
    if valid.contains i then
      if let some (some l) := g.lexemes[i]? then
        if isKeyword i l then wantsWord := true
        else if i != g.word then found := ⟨i, l⟩ :: found
  if wantsWord then
    if let some (some l) := g.lexemes[g.word]? then found := ⟨g.word, l⟩ :: found
  return found

def info (g : Grammar) (s : Nat) : SymbolInfo :=
  if s == errorSymbol then ⟨"ERROR", true, true⟩
  else if s == errorChain then ⟨"", false, false⟩
  else g.symbols.getD s default

end Grammar

end FunctionInventory
