import FunctionInventory.Proofs.Calls
import FunctionInventory.Proofs.Extents
import Mathlib.Data.List.Lex

/-!
# Extents of functions apart from each other

In a tree with siblings in order, functions of which neither is around the other have nodes
that are apart. Their extents need not be: the extent of a declaration starts at the outermost
wrapper right around it, and includes all that stands in the wrappers before the declaration.
What stands there has records and calls of its own, which are not those of the declaration.
-/
namespace FunctionInventory.Extraction

variable (p : Profile)

/-- Below the site, siblings come one after the other. -/
def SiblingsInOrder (s : Site) : Prop :=
  ∀ path t, Site.nesting.follow? s path = some t →
    t.node.namedChildren.Pairwise fun m n => m.stop ≤ n.start

/-- No span below the site is empty. -/
def SpansNonempty (s : Site) : Prop :=
  ∀ path t, Site.nesting.follow? s path = some t → t.node.start < t.node.stop

/-- Two paths, one before the other but not its beginning, part at some node. -/
theorem exists_branch_of_lt {π ρ : List Nat} (hlt : π < ρ) (hne : ¬ π <+: ρ) :
    ∃ σ i j π' ρ', π = σ ++ i :: π' ∧ ρ = σ ++ j :: ρ' ∧ i < j := by
  induction π generalizing ρ with
  | nil => exact absurd List.nil_prefix hne
  | cons i π ih =>
    cases ρ with
    | nil => exact absurd hlt (List.not_lt_nil _)
    | cons j ρ =>
      rcases List.cons_lt_cons_iff.1 hlt with hij | ⟨rfl, hrest⟩
      · exact ⟨[], i, j, π, ρ, rfl, rfl, hij⟩
      · obtain ⟨σ, k, l, π', ρ', rfl, rfl, hkl⟩ :=
          ih hrest fun hpre => hne ((List.prefix_cons_inj i).2 hpre)
        exact ⟨i :: σ, k, l, π', ρ', rfl, rfl, hkl⟩

theorem not_prefix_of_lt {π ρ : List Nat} (hlt : π < ρ) (hne : ¬ π <+: ρ) : ¬ ρ <+: π := by
  obtain ⟨σ, i, j, π', ρ', rfl, rfl, hij⟩ := exists_branch_of_lt hlt hne
  intro hpre
  have := (List.cons_prefix_cons.1 ((List.prefix_append_right_inj σ).1 hpre)).1
  omega

/-- What comes before a path comes before the beginning of that path, unless it goes on
from there. -/
theorem lt_of_prefix_of_lt {π ρ σ : List Nat} (hlt : π < ρ) (hne : ¬ π <+: ρ) (hσ : σ <+: ρ)
    (hσπ : ¬ σ <+: π) : π < σ := by
  obtain ⟨τ, i, j, π', ρ', rfl, rfl, hij⟩ := exists_branch_of_lt hlt hne
  rcases List.prefix_or_prefix_of_prefix hσ (List.prefix_append τ (j :: ρ')) with hle | ⟨υ, rfl⟩
  · exact absurd (hle.trans (List.prefix_append τ _)) hσπ
  · cases υ with
    | nil => exact absurd (by simp) hσπ
    | cons k υ =>
      obtain ⟨rfl, -⟩ := List.cons_prefix_cons.1 ((List.prefix_append_right_inj τ).1 hσ)
      exact Nesting.append_lt_append_of_lt τ hij π' υ

section
variable {p} {root : SyntaxNode} {π ρ : List Nat} {s t : Site}

theorem SpansNested.span_within (h : SpansNested ⟨[], root⟩) (hs : siteAt? root π = some s)
    (ht : siteAt? root ρ = some t) (hpre : π <+: ρ) :
    s.node.start ≤ t.node.start ∧ t.node.stop ≤ s.node.stop := by
  obtain ⟨q, rfl⟩ := hpre
  rw [siteAt?_append hs] at ht
  exact ((h.follow hs).ancestors_eq ht).1

theorem exists_site_of_append {path rest : List Nat} (h : siteAt? root (path ++ rest) = some s) :
    ∃ c, siteAt? root path = some c ∧ Site.nesting.follow? c rest = some s := by
  rw [siteAt?, Nesting.follow?_append] at h
  exact Option.bind_eq_some_iff.1 h

/-- Nodes on different branches are apart, and in the order of their paths. -/
theorem stop_le_start_of_lt (spans : SpansNested ⟨[], root⟩) (order : SiblingsInOrder ⟨[], root⟩)
    (hs : siteAt? root π = some s) (ht : siteAt? root ρ = some t) (hlt : π < ρ)
    (hne : ¬ π <+: ρ) : s.node.stop ≤ t.node.start := by
  obtain ⟨σ, i, j, π', ρ', rfl, rfl, hij⟩ := exists_branch_of_lt hlt hne
  obtain ⟨c, hc, hs⟩ := exists_site_of_append hs
  rw [siteAt?_append hc] at ht
  obtain ⟨a, ha, hs⟩ := Option.bind_eq_some_iff.1 hs
  obtain ⟨b, hb, ht⟩ := Option.bind_eq_some_iff.1 ht
  have hrow : c.children.Pairwise fun a b => a.node.stop ≤ b.node.start := by
    rw [Site.children, List.pairwise_map]
    exact order σ c hc
  have hab : a.node.stop ≤ b.node.start := by
    obtain ⟨hi, rfl⟩ := List.getElem?_eq_some_iff.1 ha
    obtain ⟨hj, rfl⟩ := List.getElem?_eq_some_iff.1 hb
    exact List.pairwise_iff_getElem.1 hrow i j hi hj hij
  have hnested := spans.follow hc
  have ha' : Site.nesting.follow? c [i] = some a := by simpa [Nesting.follow?_cons] using ha
  have hb' : Site.nesting.follow? c [j] = some b := by simpa [Nesting.follow?_cons] using hb
  have hsa := ((hnested.follow ha').ancestors_eq hs).1
  have htb := ((hnested.follow hb').ancestors_eq ht).1
  omega

end

theorem length_ancestors {root : SyntaxNode} {path : List Nat} {s : Site}
    (hs : siteAt? root path = some s) : s.ancestors.length = path.length := by
  induction path using List.reverseRecOn generalizing s with
  | nil =>
    cases hs
    rfl
  | append_singleton path i ih =>
    obtain ⟨c, hc, hs⟩ := exists_site_of_append hs
    obtain ⟨n, -, hi, hs⟩ := exists_child_of_follow? hs
    cases hs
    simp [ih hc]

/-- The nodes around a node have paths that are beginnings of its path. -/
theorem siteAt?_ancestor {root : SyntaxNode} {path : List Nat} {s : Site}
    (hs : siteAt? root path = some s) {inner outer : List SyntaxNode} {a : SyntaxNode}
    (hancestors : s.ancestors = inner ++ a :: outer) :
    siteAt? root (path.take outer.length) = some ⟨outer, a⟩ := by
  induction path using List.reverseRecOn generalizing s inner with
  | nil =>
    cases hs
    simp at hancestors
  | append_singleton path i ih =>
    obtain ⟨c, hc, hs⟩ := exists_site_of_append hs
    obtain ⟨n, -, hi, hs⟩ := exists_child_of_follow? hs
    cases hs
    have hlength := length_ancestors hc
    cases inner with
    | nil =>
      obtain ⟨rfl, rfl⟩ := List.cons.inj hancestors
      rw [hlength, List.take_left]
      exact hc
    | cons b inner =>
      have hrest : c.ancestors = inner ++ a :: outer := (List.cons.inj hancestors).2
      have hle : outer.length ≤ path.length := by
        rw [← hlength, hrest]
        simp only [List.length_append, List.length_cons]
        omega
      rw [List.take_append_of_le_length hle]
      exact ih hc hrest

/-- The wrappers that are part of the extent of a function, the closest first. -/
def Site.wrappers (s : Site) : List SyntaxNode :=
  if declares p s.ancestors s.node then s.ancestors.takeWhile fun a => p.wrappers.contains a.kind
  else []

theorem extentStart_eq_wrappers (s : Site) :
    extentStart p s.ancestors s.node = (s.wrappers p).getLast?.elim s.node.start (·.start) := by
  unfold extentStart Site.wrappers
  split <;> rfl

/-- The path of the node at which the extent of a function starts: that of its outermost
wrapper, or its own. -/
def startPath (s : Site) (path : List Nat) : List Nat :=
  path.take (path.length - (s.wrappers p).length)

theorem startPath_isPrefix (s : Site) (path : List Nat) : startPath p s path <+: path :=
  List.take_prefix _ _

/-- The extent of a function starts at the node of its start path. If that is a wrapper,
there is no further wrapper around it. -/
theorem exists_start {root : SyntaxNode} {path : List Nat} {s : Site}
    (hs : siteAt? root path = some s) :
    ∃ w, siteAt? root (startPath p s path) = some w ∧
      w.node.start = extentStart p s.ancestors s.node ∧
      (startPath p s path = path ∨ ∀ a ∈ w.ancestors.head?, ¬ p.wrappers.contains a.kind) := by
  have hlength := length_ancestors hs
  rw [extentStart_eq_wrappers]
  rcases List.eq_nil_or_concat (s.wrappers p) with hnil | ⟨inner, a, hlast⟩
  · have hpath : startPath p s path = path := by simp [startPath, hnil]
    exact ⟨s, by rw [hpath, hs], by simp [hnil], .inl hpath⟩
  · have hwhile : s.wrappers p = s.ancestors.takeWhile fun a => p.wrappers.contains a.kind := by
      unfold Site.wrappers at hlast ⊢
      split at hlast
      · rw [if_pos (by assumption)]
      · simp at hlast
    have hsplit : s.ancestors =
        inner ++ a :: s.ancestors.dropWhile fun a => p.wrappers.contains a.kind := by
      have h := List.takeWhile_append_dropWhile (p := fun a => p.wrappers.contains a.kind)
        (l := s.ancestors)
      rw [← hwhile, hlast] at h
      simpa using h.symm
    have hpath : path.length - (s.wrappers p).length =
        (s.ancestors.dropWhile fun a => p.wrappers.contains a.kind).length := by
      have h := congrArg List.length hsplit
      rw [hlast]
      simp only [List.length_append, List.length_cons, List.length_concat] at h ⊢
      omega
    refine ⟨⟨s.ancestors.dropWhile fun a => p.wrappers.contains a.kind, a⟩, ?_, ?_, .inr ?_⟩
    · rw [startPath, hpath]
      exact siteAt?_ancestor hs hsplit
    · simp [hlast]
    · intro b hb
      have h := List.head?_dropWhile_not (fun a => p.wrappers.contains a.kind) s.ancestors
      rw [Option.mem_def.1 hb] at h
      simpa using h

section
variable {p} {root : SyntaxNode} {π ρ : List Nat} {s t : Site}

/-- What stands in the wrappers of a function has its extent behind the start of that
function. -/
theorem extentStart_le_extentStart (spans : SpansNested ⟨[], root⟩)
    (hs : siteAt? root π = some s) (ht : siteAt? root ρ = some t)
    (hinside : startPath p t ρ <+: π) (hne : ¬ ρ <+: π) :
    extentStart p t.ancestors t.node ≤ extentStart p s.ancestors s.node := by
  obtain ⟨w, hw, hstart, hself | hhead⟩ := exists_start p ht
  · exact absurd (hself ▸ hinside) hne
  · obtain ⟨q, rfl⟩ := hinside
    rw [siteAt?_append hw] at hs
    obtain ⟨hspan, between, hbetween, hbehind⟩ := (spans.follow hw).ancestors_eq hs
    rw [← hstart]
    rcases extentStart_cases p s.ancestors s.node with heq | ⟨a, ha, heq⟩
    · rw [heq]
      exact hspan.1
    · have hmem : a ∈ between := by
        rw [hbetween] at ha
        cases houter : w.ancestors with
        | nil => simpa [houter] using (List.takeWhile_prefix _).subset ha
        | cons b outer =>
          rw [houter] at ha
          exact mem_of_mem_takeWhile_append (hhead b (by simp [houter])) ha
      rw [heq]
      exact (hbehind a hmem).1

/-- The nodes of two functions on different branches are apart. The extent of the second one
is behind the first function unless this stands in a wrapper of the second one, and then it
includes that of the first one. -/
theorem extents_of_lt (spans : SpansNested ⟨[], root⟩) (order : SiblingsInOrder ⟨[], root⟩)
    (hs : siteAt? root π = some s) (ht : siteAt? root ρ = some t)
    (hspan : s.node.start < s.node.stop) (hlt : π < ρ) (hne : ¬ π <+: ρ) :
    s.node.stop ≤ t.node.start ∧
      (s.node.stop ≤ extentStart p t.ancestors t.node ↔ ¬ startPath p t ρ <+: π) ∧
      (startPath p t ρ <+: π →
        extentStart p t.ancestors t.node ≤ extentStart p s.ancestors s.node) := by
  obtain ⟨w, hw, hstart, -⟩ := exists_start p ht
  refine ⟨stop_le_start_of_lt spans order hs ht hlt hne, ⟨?_, ?_⟩, ?_⟩
  · intro hbefore hinside
    have := spans.span_within hw hs hinside
    omega
  · intro houtside
    have hpre := startPath_isPrefix p t ρ
    rw [← hstart]
    exact stop_le_start_of_lt spans order hs hw (lt_of_prefix_of_lt hlt hne hpre houtside)
      fun h => hne (h.trans hpre)
  · intro hinside
    exact extentStart_le_extentStart spans hs ht hinside (not_prefix_of_lt hlt hne)

/-- What stands in the extent of a function, but not around it, is in the function or in one
of its wrappers. -/
theorem inside_or_before (spans : SpansNested ⟨[], root⟩) (order : SiblingsInOrder ⟨[], root⟩)
    (hs : siteAt? root π = some s) (ht : siteAt? root ρ = some t)
    (hspan : t.node.start < t.node.stop)
    (hstart : extentStart p s.ancestors s.node ≤ t.node.start)
    (hstop : t.node.stop ≤ s.node.stop) (hnot : ρ <+: π → ρ = π) :
    π <+: ρ ∨ startPath p s π <+: ρ ∧ t.node.stop ≤ s.node.start := by
  by_cases hbelow : π <+: ρ
  · exact .inl hbelow
  have habove : ¬ ρ <+: π := fun h => hbelow (hnot h ▸ List.prefix_refl _)
  obtain ⟨w, hw, hwstart, -⟩ := exists_start p hs
  rcases lt_trichotomy π ρ with hlt | rfl | hlt
  · have := stop_le_start_of_lt spans order hs ht hlt hbelow
    omega
  · exact absurd (List.prefix_refl _) hbelow
  · have hbefore := stop_le_start_of_lt spans order ht hs hlt habove
    refine .inr ⟨?_, hbefore⟩
    by_contra houtside
    have hpre := startPath_isPrefix p s π
    have := stop_le_start_of_lt spans order ht hw (lt_of_prefix_of_lt hlt habove hpre houtside)
      fun h => habove (h.trans hpre)
    omega

end

variable (src : SourceText) (root : SyntaxNode)

/-- Records of which neither is nested in the other have their extents one behind the other,
in the order of the records. -/
def ExtentsApart (table : List Entry) : Prop :=
  ∀ e ∈ table, ∀ f ∈ table, e.path < f.path → ¬ e.address <+: f.address →
    ∃ s t, siteAt? root e.path = some s ∧ siteAt? root f.path = some t ∧
      s.node.stop ≤ extentStart p t.ancestors t.node

/-- A call that stands in the extent of the function at `path`, but not around the function. -/
structure CallInExtent (path : List Nat) (s : Site) (ρ : List Nat) (u : Site) (name : Text) :
    Prop where
  site : siteAt? root ρ = some u
  calls : CallsAt src u.node name
  start_le : extentStart p s.ancestors s.node ≤ u.node.start
  stop_le : u.node.stop ≤ s.node.stop
  not_around : ρ <+: path → ρ = path

/-- The calls in the extents of the records are calls of the records. -/
def CallsCovered (table : List Entry) : Prop :=
  ∀ e ∈ table, ∃ s, siteAt? root e.path = some s ∧
    ∀ ρ u name, CallInExtent p src root e.path s ρ u name → name ∈ e.record.calls.names

/-- In a tree with nested spans and siblings in order, two functions of which neither is nested
in the other have nodes that are apart, in the order of their records. The extent of the second
one starts behind the first one, unless the first one stands in a wrapper of the second one; then
it includes the extent of the first one. The calls in the extent of a function are its calls,
but for those that stand in its wrappers before it. -/
theorem extents_apart_unless_wrapped (h : Readable p src root) (spans : SpansNested ⟨[], root⟩)
    (order : SiblingsInOrder ⟨[], root⟩) (nonempty : SpansNonempty ⟨[], root⟩) :
    ∃ rs table, functions p src root = .ok rs ∧ IsTable p src root rs table ∧
      (∀ e ∈ table, ∀ f ∈ table, e.path < f.path → ¬ e.address <+: f.address →
        ∃ s t, siteAt? root e.path = some s ∧ siteAt? root f.path = some t ∧
          s.node.stop ≤ t.node.start ∧
          (s.node.stop ≤ extentStart p t.ancestors t.node ↔
            ¬ startPath p t f.path <+: e.path) ∧
          (startPath p t f.path <+: e.path →
            extentStart p t.ancestors t.node ≤ extentStart p s.ancestors s.node)) ∧
      ∀ e ∈ table, ∃ s, siteAt? root e.path = some s ∧
        ∀ ρ u name, CallInExtent p src root e.path s ρ u name →
          e.path <+: ρ ∧ name ∈ e.record.calls.names ∨
            startPath p s e.path <+: ρ ∧ u.node.stop ≤ s.node.start := by
  obtain ⟨rs, hrs⟩ := h.exists_forest
  obtain ⟨table, htable, haligned⟩ := exists_aligned_table p src hrs
  refine ⟨rs, table, by rw [functions_eq_forest, hrs], htable, ?_, ?_⟩
  · intro e he f hf hlt hnested
    obtain ⟨s, hs, -, -⟩ := htable.exists_site he
    obtain ⟨t, ht, -, -⟩ := htable.exists_site hf
    have hne : ¬ e.path <+: f.path := by
      rwa [← prefix_iff_of_aligned haligned he hf]
    exact ⟨s, t, hs, ht, extents_of_lt spans order hs ht (nonempty e.path s hs) hlt hne⟩
  · intro e he
    obtain ⟨s, hs, -, -⟩ := htable.exists_site he
    refine ⟨s, hs, ?_⟩
    intro ρ u name hcall
    rcases inside_or_before spans order hs hcall.site (nonempty ρ u hcall.site) hcall.start_le
      hcall.stop_le hcall.not_around with hbelow | hbefore
    · obtain ⟨q, rfl⟩ := hbelow
      have hu := hcall.site
      rw [siteAt?_append hs] at hu
      exact .inl ⟨List.prefix_append _ _, (htable.mem_calls_iff he hs name).2 ⟨q, u, hu, hcall.calls⟩⟩
    · exact .inr hbefore

namespace Decorated

/-- A function with a decorator before the keyword that exports it. -/
def source : SourceText := .ofText "@d(() => g()) export function f() {}"

def innerCall : SyntaxNode := {
  kind := "call_expression", start := 9, stop := 12, field := some "body", children := [
    { kind := "identifier", start := 9, stop := 10, field := some "function" },
    { kind := "arguments", start := 10, stop := 12, field := some "arguments" }] }

def arrow : SyntaxNode := {
  kind := "arrow_function", start := 3, stop := 12, children := [
    { kind := "formal_parameters", start := 3, stop := 5, field := some "parameters" },
    innerCall] }

def arguments : SyntaxNode := {
  kind := "arguments", start := 2, stop := 13, field := some "arguments", children := [arrow] }

def outerCall : SyntaxNode := {
  kind := "call_expression", start := 1, stop := 13, children := [
    { kind := "identifier", start := 1, stop := 2, field := some "function" }, arguments] }

def decorator : SyntaxNode := {
  kind := "decorator", start := 0, stop := 13, field := some "decorator"
  children := [{ kind := "@", start := 0, stop := 1, named := false }, outerCall] }

def declaration : SyntaxNode := {
  kind := "function_declaration", start := 21, stop := 36, field := some "declaration"
  children := [
    { kind := "function", start := 21, stop := 29, named := false },
    { kind := "identifier", start := 30, stop := 31, field := some "name" },
    { kind := "formal_parameters", start := 31, stop := 33, field := some "parameters" },
    { kind := "statement_block", start := 34, stop := 36, field := some "body" }] }

def wrapper : SyntaxNode := {
  kind := "export_statement", start := 0, stop := 36, children := [
    decorator, { kind := "export", start := 14, stop := 20, named := false }, declaration] }

def tree : SyntaxNode := { kind := "program", start := 0, stop := 36, children := [wrapper] }

theorem functionSites : (Site.nesting.preorder ⟨[], tree⟩).filter (·.isFunction .typeScript) =
    [⟨[arguments, outerCall, decorator, wrapper, tree], arrow⟩, ⟨[wrapper, tree], declaration⟩] := by
  simp [Nesting.preorder_eq, Site.nesting, Site.children, SyntaxNode.namedChildren, tree, wrapper,
    declaration, decorator, outerCall, arguments, arrow, innerCall, Site.isFunction,
    Profile.isFunction, Profile.typeScript]

theorem nodes : tree.preorder =
    [tree, wrapper, decorator, outerCall,
      { kind := "identifier", start := 1, stop := 2, field := some "function" }, arguments, arrow,
      { kind := "formal_parameters", start := 3, stop := 5, field := some "parameters" }, innerCall,
      { kind := "identifier", start := 9, stop := 10, field := some "function" },
      { kind := "arguments", start := 10, stop := 12, field := some "arguments" }, declaration,
      { kind := "identifier", start := 30, stop := 31, field := some "name" },
      { kind := "formal_parameters", start := 31, stop := 33, field := some "parameters" },
      { kind := "statement_block", start := 34, stop := 36, field := some "body" }] := by
  simp [SyntaxNode.preorder_eq, SyntaxNode.namedChildren, tree, wrapper, declaration, decorator,
    outerCall, arguments, arrow, innerCall]

theorem spansNested : SpansNested ⟨[], tree⟩ := by
  refine (forall_nodes_iff tree (P := fun n => ∀ m ∈ n.namedChildren,
    n.start ≤ m.start ∧ m.stop ≤ n.stop)).2 ?_
  rw [nodes]
  decide +kernel

theorem siblingsInOrder : SiblingsInOrder ⟨[], tree⟩ := by
  refine (forall_nodes_iff tree (P := fun n => n.namedChildren.Pairwise fun m n =>
    m.stop ≤ n.start)).2 ?_
  rw [nodes]
  decide +kernel

theorem spansNonempty : SpansNonempty ⟨[], tree⟩ := by
  refine (forall_nodes_iff tree (P := fun n => n.start < n.stop)).2 ?_
  rw [nodes]
  decide +kernel

theorem calls_arrow : calls source arrow = .ok (.ofList ["g"]) := by
  have hcallees : arrow.preorder.filterMap bareCallee =
      [{ kind := "identifier", start := 9, stop := 10, field := some "function" }] := by
    simp [SyntaxNode.preorder_eq, SyntaxNode.namedChildren, arrow, innerCall, bareCallee,
      SyntaxNode.childWithField]
  rw [calls, hcallees]
  decide +kernel

theorem calls_declaration : calls source declaration = .ok ∅ := by
  have hcallees : declaration.preorder.filterMap bareCallee = [] := by
    simp [SyntaxNode.preorder_eq, SyntaxNode.namedChildren, declaration, bareCallee]
  rw [calls, hcallees]
  rfl

theorem record_arrow :
    record .typeScript source [arguments, outerCall, decorator, wrapper, tree] arrow = .ok {
      name := anonymous
      lines := lineRange source 3 12
      sourceText := "() => g()"
      calls := .ofList ["g"] } := by
  refine (record_eq_ok_iff ..).2 ⟨rfl, rfl, rfl, rfl, ?_, rfl, calls_arrow⟩
  decide +kernel

theorem record_declaration : record .typeScript source [wrapper, tree] declaration = .ok {
    name := "f"
    lines := lineRange source 0 36
    sourceText := "@d(() => g()) export function f() {}" } := by
  refine (record_eq_ok_iff ..).2 ⟨?_, rfl, rfl, rfl, ?_, rfl, calls_declaration⟩
  all_goals decide +kernel

theorem readable : Readable .typeScript source tree := by
  rw [Readable, forall_functions_iff, functionSites]
  rw [List.forall_mem_cons, List.forall_mem_singleton]
  constructor
  · exact ⟨_, record_arrow⟩
  · exact ⟨_, record_declaration⟩

theorem extents_apart_unless_wrapped_decorated :
    (Readable .typeScript source tree ∧ SpansNested ⟨[], tree⟩ ∧ SiblingsInOrder ⟨[], tree⟩ ∧
      SpansNonempty ⟨[], tree⟩) ∧
    ∃ rs table, functions .typeScript source tree = .ok rs ∧
      IsTable .typeScript source tree rs table ∧
      (∀ e ∈ table, ∀ f ∈ table, e.path < f.path → ¬ e.address <+: f.address →
        ∃ s t, siteAt? tree e.path = some s ∧ siteAt? tree f.path = some t ∧
          s.node.stop ≤ t.node.start ∧
          (s.node.stop ≤ extentStart .typeScript t.ancestors t.node ↔
            ¬ startPath .typeScript t f.path <+: e.path) ∧
          (startPath .typeScript t f.path <+: e.path →
            extentStart .typeScript t.ancestors t.node ≤
              extentStart .typeScript s.ancestors s.node)) ∧
      ∀ e ∈ table, ∃ s, siteAt? tree e.path = some s ∧
        ∀ ρ u name, CallInExtent .typeScript source tree e.path s ρ u name →
          e.path <+: ρ ∧ name ∈ e.record.calls.names ∨
            startPath .typeScript s e.path <+: ρ ∧ u.node.stop ≤ s.node.start :=
  ⟨⟨readable, spansNested, siblingsInOrder, spansNonempty⟩,
    extents_apart_unless_wrapped .typeScript source tree readable spansNested siblingsInOrder
      spansNonempty⟩

theorem siteAt?_arrow : siteAt? tree [0, 0, 0, 1, 0] =
    some ⟨[arguments, outerCall, decorator, wrapper, tree], arrow⟩ := rfl

theorem siteAt?_declaration : siteAt? tree [0, 1] = some ⟨[wrapper, tree], declaration⟩ := rfl

/-- The extent of the declaration starts at its decorator, and includes a function and a call
that are not part of it. -/
theorem decorator_in_extent :
    (Readable .typeScript source tree ∧ SpansNested ⟨[], tree⟩ ∧ SiblingsInOrder ⟨[], tree⟩ ∧
      SpansNonempty ⟨[], tree⟩) ∧
    ∃ rs table, functions .typeScript source tree = .ok rs ∧
      IsTable .typeScript source tree rs table ∧ ¬ ExtentsApart .typeScript tree table ∧
      ¬ CallsCovered .typeScript source tree table := by
  refine ⟨⟨readable, spansNested, siblingsInOrder, spansNonempty⟩, ?_⟩
  obtain ⟨rs, hrs⟩ := readable.exists_forest
  obtain ⟨table, htable, haligned⟩ := exists_aligned_table _ _ hrs
  obtain ⟨e, he, hepath⟩ := htable.exists_entry ⟨_, siteAt?_arrow, rfl⟩
  obtain ⟨f, hf, hfpath⟩ := htable.exists_entry ⟨_, siteAt?_declaration, rfl⟩
  refine ⟨rs, table, by rw [functions_eq_forest, hrs], htable, ?_, ?_⟩
  · intro hapart
    have hne : ¬ e.address <+: f.address := by
      rw [prefix_iff_of_aligned haligned he hf, hepath, hfpath]
      decide
    obtain ⟨s, t, hs, ht, hle⟩ := hapart e he f hf (by rw [hepath, hfpath]; decide) hne
    rw [hepath, siteAt?_arrow] at hs
    rw [hfpath, siteAt?_declaration] at ht
    cases hs
    cases ht
    exact absurd hle (by decide)
  · intro hcovered
    obtain ⟨s, hs, hall⟩ := hcovered f hf
    obtain ⟨t, ht, -, hr⟩ := htable.exists_site hf
    rw [hfpath, siteAt?_declaration] at hs ht
    cases hs
    cases ht
    have hcalls : f.record.calls = ∅ := by
      rw [record_declaration] at hr
      exact (congrArg FunctionRecord.calls (Except.ok.inj hr)).symm
    have hd : ("d" : Text) ∈ f.record.calls.names := by
      refine hall [0, 0, 0] ⟨[decorator, wrapper, tree], outerCall⟩ "d"
        ⟨rfl, ⟨_, rfl, by decide +kernel⟩, by decide, by decide, ?_⟩
      rw [hfpath]
      decide
    rw [hcalls] at hd
    cases hd

end Decorated

end FunctionInventory.Extraction
