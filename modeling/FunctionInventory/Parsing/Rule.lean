import FunctionInventory.Parsing.Pattern

/-!
# Grammar rules as they are written

A grammar is a list of named rules. Rules are built from references, tokens,
sequences, choices and repetitions, and carry the marks that settle ambiguities
(precedence, associativity, dynamic precedence) or shape the tree (fields and
aliases). `Grammar.compile` turns such a specification into productions.
-/
namespace FunctionInventory

/-- How strongly the end of a rule binds: not at all, by a number, or by a name
that is ordered in the specification. -/
inductive Precedence where
  | none
  | level (n : Int)
  | name (s : String)
deriving BEq, Hashable, Repr, Inhabited

inductive Assoc where
  | left
  | right
deriving BEq, Hashable, Repr, Inhabited

/-- The name under which a node appears instead of its own. -/
structure Alias where
  name : String
  named : Bool
deriving BEq, Hashable, Repr, Inhabited

/-- A token as the lexer sees it. Of two tokens that end at the same unit the one
with the higher `priority` wins, then the one with the higher `weight`, then the
one that is declared first. An `immediate` token admits no blank before it. -/
structure Lexeme where
  pattern : Pattern
  literal : Option String := none
  priority : Int := 0
  immediate : Bool := false
deriving BEq, Hashable, Repr, Inhabited

namespace Lexeme

def ofLiteral (s : String) : Lexeme := { pattern := .ofString s, literal := some s }

/-- Literals outweigh patterns, and immediate tokens outweigh others. -/
def weight (l : Lexeme) : Nat :=
  (if l.literal.isSome then 2 else 0) + (if l.immediate then 1 else 0)

end Lexeme

inductive Rule where
  | blank
  | ref (name : String)
  | token (l : Lexeme)
  | seq (a b : Rule)
  | choice (a b : Rule)
  | repeat1 (r : Rule)
  | prec (p : Precedence) (assoc : Option Assoc) (r : Rule)
  | dynamic (n : Int) (r : Rule)
  | field (name : String) (r : Rule)
  | aliased (as : Alias) (r : Rule)
  | freeWords (r : Rule)
deriving BEq, Hashable, Repr, Inhabited

namespace Rule

/-- The token with this spelling. -/
def literal (s : String) : Rule := token (.ofLiteral s)

instance : Coe String Rule := ⟨literal⟩

def sequence : List Rule → Rule
  | [] => blank
  | [r] => r
  | r :: rs => seq r (sequence rs)

def oneOf : List Rule → Rule
  | [] => blank
  | [r] => r
  | r :: rs => choice r (oneOf rs)

def optional (r : Rule) : Rule := choice r blank

def many (r : Rule) : Rule := choice (repeat1 r) blank

/-- One or more items with separators between them. -/
def sepBy1 (separator item : Rule) : Rule := seq item (many (seq separator item))

def commaSep1 (item : Rule) : Rule := sepBy1 "," item

def commaSep (item : Rule) : Rule := optional (commaSep1 item)

/-- Shows the node of `r` as a named node of kind `name`. -/
def named (name : String) (r : Rule) : Rule := aliased ⟨name, true⟩ r

def binding (name : String) (r : Rule) : Rule := prec (.name name) Option.none r

def bindingLeft (name : String) (r : Rule) : Rule := prec (.name name) (some .left) r

def bindingRight (name : String) (r : Rule) : Rule := prec (.name name) (some .right) r

def left (r : Rule) : Rule := prec (.level 0) (some .left) r

def right (r : Rule) : Rule := prec (.level 0) (some .right) r

/-- Whether the whole rule is one token. -/
def token? : Rule → Option Lexeme
  | token l => some l
  | _ => Option.none

/-- The names of the rules that a rule refers to. -/
def references : Rule → List String
  | ref name => [name]
  | seq a b | choice a b => references a ++ references b
  | repeat1 r | prec _ _ r | dynamic _ r | field _ r | aliased _ r | freeWords r => references r
  | blank | token _ => []

end Rule

/-- An entry of a precedence order: a named precedence, or all productions of a rule. -/
inductive Rank where
  | name (s : String)
  | rule (s : String)
deriving BEq, Repr, Inhabited

/-- A grammar as it is written. The first rule is the start rule; `externals` are
recognised by a scanner rather than by patterns (an entry may also name a token that
has a pattern); `blanks` may precede every token that is not immediate; `extras` may
occur anywhere; `word` is the token that keywords are carved out of, and `reserved`
are the keywords that are never words unless a rule frees them; `orders` list
precedences from strong to weak; `uncertain` are tokens not looked for while
skipping over an error. -/
structure Specification where
  rules : List (String × Rule)
  externals : List String
  extras : List String
  blanks : CharSet
  word : String
  reserved : List String
  supertypes : List String
  inlined : List String
  orders : List (List Rank)
  uncertain : List String

namespace Specification

/-- Replaces the rules of the same names and appends the new ones. -/
def override (base : List (String × Rule)) (changes : List (String × Rule)) :
    List (String × Rule) :=
  base.map (fun p => (p.1, (changes.lookup p.1).getD p.2)) ++
    changes.filter fun p => (base.lookup p.1).isNone

/-- The names that `pending` leads to, with those already `found`. A step per reference
is enough, since each rule is opened once. -/
def reachable (rules : List (String × Rule)) :
    Nat → List String → List String → List String
  | _, [], found => found
  | 0, _, found => found
  | fuel + 1, name :: pending, found =>
    if found.contains name then reachable rules fuel pending found
    else
      let next := ((rules.lookup name).map Rule.references).getD []
      reachable rules fuel (next ++ pending) (name :: found)

/-- The rules in use: those that the start rule, the extras and the word lead to. -/
def usedRules (spec : Specification) : List (String × Rule) :=
  let roots := (spec.rules.map (·.1)).take 1 ++ spec.extras ++ spec.externals ++ [spec.word]
  let references := spec.rules.flatMap fun r => r.2.references
  let used := reachable spec.rules (roots.length + references.length) roots []
  spec.rules.filter fun r => used.contains r.1

end Specification

end FunctionInventory
