import FunctionInventory.Parsing.Parser
import FunctionInventory.SyntaxNode

/-!
# From parse trees to syntax trees

A parse tree has a node for every rule that was used. The syntax tree keeps those that
are visible; the children of the others take their place. What a production says about
a child, its alias and its field, is applied on the way.
-/
namespace FunctionInventory

namespace Tree

/-- How a tree shows: the kind, and whether it is named. -/
def face (g : Grammar) (as : Option Alias) (symbol : Nat) : Option (String × Bool) :=
  match as with
  | some a => some (a.name, a.named)
  | none =>
    let info := g.info symbol
    if info.visible then some (info.name, info.named) else none

mutual

/-- Puts the nodes that a tree stands for in front of `rest`. -/
def syntaxBefore (g : Grammar) (src : Source) (as : Option Alias) (field : Option String) :
    Tree → List SyntaxNode → List SyntaxNode
  | node i children, rest =>
    match face g as i.symbol with
    | some (kind, named) =>
      { kind, named, field
        start := src.offset i.start
        stop := src.offset i.stop
        children := syntaxAllBefore g src i.marks 0 none children [] } :: rest
    | none => syntaxAllBefore g src i.marks 0 field children rest

/-- Puts the nodes that some siblings stand for in front of `rest`. `k` counts the
children that belong to the production; `field` is that of a hidden parent. -/
def syntaxAllBefore (g : Grammar) (src : Source) (marks : Array ChildMark) (k : Nat)
    (field : Option String) : List Tree → List SyntaxNode → List SyntaxNode
  | [], rest => rest
  | c :: cs, rest =>
    if c.extra then
      syntaxBefore g src none none c (syntaxAllBefore g src marks k field cs rest)
    else
      let mark := marks[k]?
      syntaxBefore g src (mark.bind (·.as)) ((mark.bind (·.field)).orElse fun _ => field) c
        (syntaxAllBefore g src marks (k + 1) field cs rest)

end

/-- The syntax tree of a whole input. -/
def toSyntax? (g : Grammar) (src : Source) (t : Tree) : Option SyntaxNode :=
  (syntaxBefore g src none none t []).head?

end Tree

end FunctionInventory
