import FunctionInventory.Proofs.Extents
import Mathlib.Logic.Relation

/-!
# The nodes of a tree

What extraction reads of a tree are nodes of that tree: children by their field or kind,
constructs, callees, and the sites that paths lead to with all nodes around them. What holds of
all nodes of a tree holds of each of them.
-/
namespace FunctionInventory

namespace SyntaxNode

/-- The first node is the second one or stands below it; tokens count as well. -/
def IsNodeOf (m n : SyntaxNode) : Prop := Relation.ReflTransGen (fun c u => c ∈ u.children) m n

theorem isNodeOf_iff {m n : SyntaxNode} : m.IsNodeOf n ↔ m = n ∨ ∃ c ∈ n.children, m.IsNodeOf c := by
  rw [IsNodeOf, Relation.ReflTransGen.cases_tail_iff, eq_comm]
  apply or_congr_right
  exact ⟨fun ⟨c, hm, hc⟩ => ⟨c, hc, hm⟩, fun ⟨c, hc, hm⟩ => ⟨c, hm, hc⟩⟩

namespace IsNodeOf

variable {k m n : SyntaxNode}

theorem refl (n : SyntaxNode) : n.IsNodeOf n := Relation.ReflTransGen.refl

theorem trans (h : k.IsNodeOf m) (h' : m.IsNodeOf n) : k.IsNodeOf n :=
  Relation.ReflTransGen.trans h h'

theorem of_mem_children (h : m ∈ n.children) : m.IsNodeOf n := Relation.ReflTransGen.single h

theorem of_mem_namedChildren (h : m ∈ n.namedChildren) : m.IsNodeOf n :=
  of_mem_children (List.mem_filter.1 h).1

theorem of_mem_constructs (h : m ∈ n.constructs) : m.IsNodeOf n :=
  of_mem_namedChildren (List.mem_filter.1 h).1

theorem of_childWithField {field : String} (h : n.childWithField field = some m) : m.IsNodeOf n :=
  of_mem_children (List.mem_of_find?_eq_some h)

theorem of_childOfKind {kind : String} (h : n.childOfKind kind = some m) : m.IsNodeOf n :=
  of_mem_children (List.mem_of_find?_eq_some h)

theorem of_mem_preorder (h : m ∈ n.preorder) : m.IsNodeOf n := by
  induction n using nesting.nestedInduction with
  | step n ih =>
    rw [preorder_eq, List.mem_cons, List.mem_flatMap] at h
    rcases h with rfl | ⟨c, hc, hm⟩
    · exact refl m
    · exact (ih c hc hm).trans (of_mem_namedChildren hc)

end IsNodeOf

end SyntaxNode

namespace Extraction

open SyntaxNode

/-- The node calls the identifier `c`: no tagged template, and nothing else than a bare name. -/
structure IsBareCall (n c : SyntaxNode) : Prop where
  kind : n.kind = "call_expression"
  untagged : ∀ a, n.childWithField "arguments" = some a → a.kind ≠ "template_string"
  callee : n.childWithField "function" = some c
  identifier : c.kind = "identifier"

theorem bareCallee_eq_some_iff {n c : SyntaxNode} : bareCallee n = some c ↔ IsBareCall n c := by
  have huntagged : (n.childWithField "arguments").any (·.kind == "template_string") = false ↔
      ∀ a, n.childWithField "arguments" = some a → a.kind ≠ "template_string" := by
    cases n.childWithField "arguments" <;> simp
  constructor
  · intro h
    unfold bareCallee at h
    split at h
    · simp at h
    · split at h
      · simp at h
      · next hkind htagged =>
        split at h
        · next hcallee =>
          split at h
          · next hidentifier =>
            cases h
            exact ⟨by simpa using hkind, huntagged.1 (by simpa using htagged), hcallee,
              by simpa using hidentifier⟩
          · simp at h
        · simp at h
  · intro h
    have htagged := huntagged.2 h.untagged
    simp [bareCallee, h.kind, htagged, h.callee, h.identifier]

/-- A path leads to a node of the tree, and all nodes on the way are nodes of the tree. -/
theorem isNodeOf_of_follow? {s u : Site} {path : List Nat}
    (h : Site.nesting.follow? s path = some u) :
    u.node.IsNodeOf s.node ∧ ∀ a ∈ u.ancestors, a.IsNodeOf s.node ∨ a ∈ s.ancestors := by
  induction path generalizing s with
  | nil =>
    cases h
    exact ⟨.refl _, fun a ha => Or.inr ha⟩
  | cons i path ih =>
    obtain ⟨n, hn, -, h⟩ := exists_child_of_follow? h
    have hchild : n.IsNodeOf s.node := .of_mem_namedChildren hn
    obtain ⟨hnode, hancestors⟩ := ih h
    refine ⟨hnode.trans hchild, fun a ha => ?_⟩
    rcases hancestors a ha with hbelow | haround
    · exact Or.inl (hbelow.trans hchild)
    · rcases List.mem_cons.1 haround with rfl | haround
      · exact Or.inl (.refl _)
      · exact Or.inr haround

end Extraction

end FunctionInventory
