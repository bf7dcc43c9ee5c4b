import FunctionInventory.Nesting

/-!
# Syntax trees

A node has a kind, a byte extent and children. Named nodes are constructs, the others
are tokens; a child may play a role in its parent, its field.
-/
namespace FunctionInventory

structure SyntaxNode where
  kind : String
  start : Nat
  stop : Nat
  named : Bool := true
  field : Option String := none
  children : List SyntaxNode := []
deriving Inhabited

namespace SyntaxNode

def namedChildren (n : SyntaxNode) : List SyntaxNode := n.children.filter (·.named)

/-- The named children that are not comments. -/
def constructs (n : SyntaxNode) : List SyntaxNode := n.namedChildren.filter (·.kind != "comment")

/-- The first child with the given field. -/
def childWithField (n : SyntaxNode) (field : String) : Option SyntaxNode :=
  n.children.find? (·.field == some field)

/-- The first child of the given kind. -/
def childOfKind (n : SyntaxNode) (kind : String) : Option SyntaxNode :=
  n.children.find? (·.kind == kind)

theorem totalOf_sizeOf_namedChildren_lt (n : SyntaxNode) :
    totalOf sizeOf n.namedChildren < sizeOf n := by
  have hfilter := totalOf_filter_le sizeOf (·.named) n.children
  have hchildren := totalOf_sizeOf_le n.children
  have hn : sizeOf n.children < sizeOf n := by
    cases n
    simp only [SyntaxNode.mk.sizeOf_spec]
    omega
  simp only [namedChildren]
  omega

/-- A node holds its named children. -/
def nesting : Nesting SyntaxNode where
  children := namedChildren
  shrinks := ⟨sizeOf, totalOf_sizeOf_namedChildren_lt⟩

/-- A node and the constructs below it, parents first. -/
def preorder (n : SyntaxNode) : List SyntaxNode := nesting.preorder n

theorem preorder_eq (n : SyntaxNode) : n.preorder = n :: n.namedChildren.flatMap preorder :=
  nesting.preorder_eq n

end SyntaxNode

end FunctionInventory
