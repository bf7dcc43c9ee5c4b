import FunctionInventory.Proofs.Calls
import FunctionInventory.Proofs.Slices
import FunctionInventory.Proofs.TreeNodes

/-!
# Where the fields of a record come from

The fields of a record are cut out at nodes below that of the function, by fields with fallbacks,
through patterns, between first and last constructs, with marks and blanks taken off. All of it
stands in the text of the record, as long as every node is within its parent. Otherwise a field
has the word that stands for a missing one.
-/
namespace FunctionInventory

namespace Text

/-- The text has the default, or it is a part of the whole and not empty. -/
def DefaultOrPart (default whole t : Text) : Prop := t = default ∨ t ≠ [] ∧ t <:+: whole

theorem isInfix_trim (t : Text) : t.trim <:+: t := by
  have hleft : t.trimLeft <:+: t := (List.dropWhile_suffix _).isInfix
  have hright : trimLeft t.trimLeft.reverse <:+: t.trimLeft.reverse :=
    (List.dropWhile_suffix _).isInfix
  rw [← List.reverse_infix, List.reverse_reverse] at hright
  exact hright.trans hleft

end Text

/-- Text that starts and ends in an extent is a part of the text of that extent; it is empty if
it ends before it starts. -/
theorem SourceText.isInfix_of_slice_within {src : SourceText} {start stop start' stop' : Nat} {t u : Text}
    (hstart : start ≤ start') (hstop : stop' ≤ stop)
    (ht : src.slice start stop = .ok t) (hu : src.slice start' stop' = .ok u) : u <:+: t := by
  by_cases hle : start' ≤ stop'
  · exact isInfix_of_slice hstart hle hstop ht hu
  · rw [slice_of_not_lt src (by omega)] at hu
    cases hu
    exact List.nil_infix

namespace SyntaxNode

/-- Every node of the tree, tokens included, is within its parent. -/
def SpansWithin (root : SyntaxNode) : Prop :=
  ∀ n : SyntaxNode, n.IsNodeOf root → ∀ c ∈ n.children, n.start ≤ c.start ∧ c.stop ≤ n.stop

@[simp] theorem spansWithin_mk {kind : String} {start stop : Nat} {named : Bool}
    {field : Option String} {children : List SyntaxNode} :
    SpansWithin ⟨kind, start, stop, named, field, children⟩ ↔
      ∀ c ∈ children, (start ≤ c.start ∧ c.stop ≤ stop) ∧ c.SpansWithin := by
  constructor
  · intro h c hc
    exact ⟨h _ (.refl _) c hc, fun n hn => h n (hn.trans (.of_mem_children hc))⟩
  · intro h n hn
    rcases isNodeOf_iff.1 hn with rfl | ⟨c, hc, hn⟩
    · exact fun c hc => (h c hc).1
    · exact (h c hc).2 n hn

namespace SpansWithin

variable {m n : SyntaxNode}

theorem of_isNodeOf (h : n.SpansWithin) (hm : m.IsNodeOf n) : m.SpansWithin :=
  fun k hk => h k (hk.trans hm)

/-- A node at any depth is within the tree. -/
theorem span (h : n.SpansWithin) (hm : m.IsNodeOf n) : n.start ≤ m.start ∧ m.stop ≤ n.stop := by
  induction hm using Relation.ReflTransGen.head_induction_on with
  | refl => exact ⟨Nat.le_refl _, Nat.le_refl _⟩
  | head hc hk ih =>
    have hchild := h _ hk _ hc
    exact ⟨ih.1.trans hchild.1, hchild.2.trans ih.2⟩

end SpansWithin

end SyntaxNode

namespace Extraction

open SyntaxNode

variable {src : SourceText} {whole w : Text} {n m : SyntaxNode}

theorem spansNested_of_spansWithin {root : SyntaxNode} (h : root.SpansWithin) :
    SpansNested ⟨[], root⟩ := by
  intro path s hs c hc
  exact h s.node (isNodeOf_of_follow? hs).1 c (List.mem_filter.1 hc).1

/-- Whatever can be cut out from the start of a node to the end of a node, both in the tree, is
a part of the text. -/
def Covers (src : SourceText) (whole : Text) (n : SyntaxNode) : Prop :=
  ∀ first last : SyntaxNode, first.IsNodeOf n → last.IsNodeOf n →
    ∀ w, src.slice first.start last.stop = .ok w → w <:+: whole

theorem covers_of_slice {start : Nat} (h : n.SpansWithin) (hstart : start ≤ n.start)
    (hwhole : src.slice start n.stop = .ok whole) : Covers src whole n := by
  intro first last hfirst hlast w hw
  exact SourceText.isInfix_of_slice_within (hstart.trans (h.span hfirst).1) (h.span hlast).2 hwhole hw

namespace Covers

theorem of_isNodeOf (h : Covers src whole n) (hm : m.IsNodeOf n) : Covers src whole m :=
  fun first last hfirst hlast => h first last (hfirst.trans hm) (hlast.trans hm)

theorem textOf (h : Covers src whole n) (hw : textOf src n = .ok w) : w <:+: whole :=
  h n n (.refl n) (.refl n) w hw

/-- Taking off marks and blanks leaves a part. -/
theorem withoutMark {mark : Char} (h : Covers src whole n)
    (hw : (Extraction.textOf src n >>= fun t => pure (withoutMark mark t)) = .ok w) :
    w <:+: whole := by
  obtain ⟨t, ht, hw⟩ := bind_eq_ok_iff.1 hw
  cases hw
  have hdrop : t.dropWhile (· == CodePoint.ofChar mark) <:+: t := (List.dropWhile_suffix _).isInfix
  exact ((Text.isInfix_trim _).trans hdrop).trans (h.textOf ht)

theorem annotationText (h : Covers src whole n) (hw : annotationText src n = .ok w) :
    w <:+: whole := by
  unfold Extraction.annotationText at hw
  split at hw
  · exact h.withoutMark hw
  · next first rest hc =>
    have hfirst : first ∈ n.constructs := by simp [hc]
    have hlast : (first :: rest).getLast (by simp) ∈ n.constructs := by
      rw [hc]
      exact List.getLast_mem _
    exact h _ _ (.of_mem_constructs hfirst) (.of_mem_constructs hlast) w hw

end Covers

mutual

theorem isInfix_patternName : (n : SyntaxNode) → Covers src whole n →
    patternName src n = .ok w → w <:+: whole
  | ⟨kind, start, stop, named, field, children⟩, h => by
    intro hw
    have hleft := isInfix_leftName children fun m hm => h.of_isNodeOf (.of_mem_children hm)
    rw [patternName] at hw
    split at hw
    · split at hw
      · next inner rest hc =>
        exact (h.of_isNodeOf (.of_mem_constructs (by simp [hc]))).textOf hw
      · exact h.withoutMark hw
    · split at hw
      · cases hname : leftName src children with
        | none =>
          rw [hname] at hw
          exact h.textOf hw
        | some name =>
          rw [hname] at hw
          exact hleft (hname.trans (congrArg some hw))
      · exact h.textOf hw

theorem isInfix_leftName : (ns : List SyntaxNode) → (∀ n ∈ ns, Covers src whole n) →
    leftName src ns = some (.ok w) → w <:+: whole
  | [], _ => by simp [leftName]
  | n :: ns, h => by
    intro hw
    rw [leftName] at hw
    split at hw
    · exact isInfix_patternName n (h n List.mem_cons_self) (Option.some.inj hw)
    · exact isInfix_leftName ns (fun m hm => h m (List.mem_cons_of_mem n hm)) hw

end

theorem defaultOrPart_orDefault {default : Text} (hw : w <:+: whole) :
    Text.DefaultOrPart default whole (orDefault default w) := by
  unfold orDefault
  split
  · exact Or.inl rfl
  · next hne => exact Or.inr ⟨by simpa using hne, hw⟩

end Extraction

/-- The name of the parameter is a part of the text, and so is its type if it declares one. -/
structure Parameter.PartOf (whole : Text) (q : Parameter) : Prop where
  name : q.name <:+: whole
  type : Text.DefaultOrPart anyType whole q.type

namespace Extraction

open SyntaxNode

variable {src : SourceText} {whole w : Text} {n : SyntaxNode}

theorem partOf_parameter {q : Parameter} (h : Covers src whole n)
    (hq : parameter src n = .ok q) : q.PartOf whole := by
  have htype : ∀ annotation, ((n.childWithField "type").orElse
      fun _ => n.childOfKind "type_annotation") = some annotation → Covers src whole annotation := by
    intro annotation hc
    rw [Option.orElse_eq_or, Option.or_eq_some_iff] at hc
    rcases hc with hc | ⟨-, hc⟩
    · exact h.of_isNodeOf (.of_childWithField hc)
    · exact h.of_isNodeOf (.of_childOfKind hc)
  unfold parameter at hq
  split at hq
  · obtain ⟨name, hname, hq⟩ := bind_eq_ok_iff.1 hq
    cases hq
    exact ⟨isInfix_patternName n h hname, Or.inl rfl⟩
  · extract_lets rest at hq
    have hrest : ∀ name, name <:+: whole → rest name = .ok q → q.PartOf whole := by
      intro name hname hq
      dsimp only [rest] at hq
      split at hq
      · next annotation hc =>
        obtain ⟨w, hw, hq⟩ := bind_eq_ok_iff.1 hq
        cases hq
        exact ⟨hname, defaultOrPart_orDefault ((htype annotation hc).annotationText hw)⟩
      · cases hq
        exact ⟨hname, Or.inl rfl⟩
    split at hq
    · next pattern hc =>
      obtain ⟨name, hname, hq⟩ := bind_eq_ok_iff.1 hq
      have hpattern : Covers src whole pattern := h.of_isNodeOf (.of_childWithField hc)
      exact hrest name (isInfix_patternName pattern hpattern hname) hq
    · obtain ⟨name, hname, hq⟩ := bind_eq_ok_iff.1 hq
      exact hrest name (h.textOf hname) hq

/-- Each construct of the list gives one parameter, whose name and type stand in the text of the
construct. -/
def ListsParameters (src : SourceText) (list : SyntaxNode) (ps : List Parameter) : Prop :=
  List.Forall₂ (fun c q => parameter src c = .ok q ∧
    ∀ text, textOf src c = .ok text → q.PartOf text) list.constructs ps

theorem listsParameters_of_parameters {ps : List Parameter} {list : SyntaxNode}
    (h : n.SpansWithin) (hlist : n.childWithField "parameters" = some list)
    (hps : parameters src n = .ok ps) : ListsParameters src list ps := by
  rw [parameters, hlist] at hps
  have hall := mapM_eq_ok_iff.1 hps
  rw [ListsParameters, List.forall₂_iff_zip] at *
  refine ⟨hall.1, fun {c q} hmem => ⟨hall.2 hmem, fun text htext => ?_⟩⟩
  have hnode : c.IsNodeOf n := (IsNodeOf.of_mem_constructs (List.of_mem_zip hmem).1).trans
    (.of_childWithField hlist)
  exact partOf_parameter (covers_of_slice (h.of_isNodeOf hnode) (Nat.le_refl _) htext)
    (hall.2 hmem)

theorem partOf_of_parameters {ps : List Parameter} (h : Covers src whole n)
    (hps : parameters src n = .ok ps) : ∀ q ∈ ps, q.PartOf whole := by
  unfold parameters at hps
  split at hps
  · next list hlist =>
    intro q hq
    obtain ⟨c, hc, hparameter⟩ := (mem_of_mapM_eq_ok hps q).1 hq
    have hnode : c.IsNodeOf n := (IsNodeOf.of_mem_constructs hc).trans (.of_childWithField hlist)
    exact partOf_parameter (h.of_isNodeOf hnode) hparameter
  · split at hps
    · next single hsingle =>
      obtain ⟨name, hname, hps⟩ := bind_eq_ok_iff.1 hps
      cases hps
      rw [List.forall_mem_singleton]
      exact ⟨(h.of_isNodeOf (.of_childWithField hsingle)).textOf hname, Or.inl rfl⟩
    · cases hps
      exact List.forall_mem_nil _

theorem defaultOrPart_returnType (h : Covers src whole n) (hw : returnType src n = .ok w) :
    Text.DefaultOrPart voidType whole w := by
  unfold returnType at hw
  split at hw
  · next annotation hc =>
    obtain ⟨t, ht, hw⟩ := bind_eq_ok_iff.1 hw
    cases hw
    exact defaultOrPart_orDefault ((h.of_isNodeOf (.of_childWithField hc)).annotationText ht)
  · cases hw
    exact Or.inl rfl

theorem isInfix_functionName {p : Profile} {ancestors : List SyntaxNode}
    (h : Covers src whole n) (hw : functionName p src ancestors n = .ok w) :
    w = anonymous ∨ w <:+: whole := by
  unfold functionName at hw
  split at hw
  · split at hw
    · next name hc => exact Or.inr ((h.of_isNodeOf (.of_childWithField hc)).textOf hw)
    · cases hw
      exact Or.inl rfl
  · cases hw
    exact Or.inl rfl

theorem isInfix_of_mem_calls {names : NameSet} (h : Covers src whole n)
    (hcalls : calls src n = .ok names) : ∀ t ∈ names.names, t <:+: whole := by
  intro t ht
  obtain ⟨m, hm, c, hc, hslice⟩ := (mem_calls src hcalls t).1 ht
  have hnode : c.IsNodeOf n :=
    (IsNodeOf.of_childWithField (bareCallee_eq_some_iff.1 hc).callee).trans (.of_mem_preorder hm)
  exact (h.of_isNodeOf hnode).textOf (SourceText.sliceStrict_eq_ok_iff.1 hslice).1

end Extraction

/-- Every field of the record stands in its text, or has the word for a missing one. -/
structure FunctionRecord.FromText (r : FunctionRecord) : Prop where
  name : r.name = anonymous ∨ r.name <:+: r.sourceText
  parameters : ∀ q ∈ r.parameters, q.PartOf r.sourceText
  returnType : Text.DefaultOrPart voidType r.sourceText r.returnType
  calls : ∀ t ∈ r.calls.names, t <:+: r.sourceText

namespace Extraction

/-- In the inventory of a tree whose nodes are within their parents, every field of every record
at every depth stands in the text of that record, or has the word for a missing one. Where a
function has a list of parameters, each construct in it has its own entry, in order. It does not
matter whether siblings are in order or where code points end. -/
theorem fields_from_text (p : Profile) (src : SourceText) (root : SyntaxNode)
    (rs : List FunctionRecord) (spans : root.SpansWithin) (h : functions p src root = .ok rs) :
    ∀ r ∈ FunctionRecord.walkAll rs, r.FromText ∧
      ∃ path s, siteAt? root path = some s ∧ s.isFunction p ∧
        record p src s.ancestors s.node = .ok { r with inner := [] } ∧
        ∀ list, s.node.childWithField "parameters" = some list →
          ListsParameters src list r.parameters := by
  rw [functions_eq_forest] at h
  obtain ⟨table, htable⟩ := exists_table p src h
  intro r hr
  obtain ⟨e, he, rfl⟩ := (htable.mem_walkAll_iff r).1 hr
  obtain ⟨s, hs, hfun, hrecord⟩ := htable.exists_site he
  obtain ⟨hname, hps, hreturns, -, htext, -, hcalls⟩ := (record_eq_ok_iff p src).1 hrecord
  have hspans : s.node.SpansWithin := spans.of_isNodeOf (isNodeOf_of_follow? hs).1
  have hstart := extentStart_le_start p (spansNested_of_spansWithin spans) hs
  have hcovers : Covers src e.record.sourceText s.node := covers_of_slice hspans hstart htext
  refine ⟨⟨isInfix_functionName hcovers hname, partOf_of_parameters hcovers hps,
    defaultOrPart_returnType hcovers hreturns, isInfix_of_mem_calls hcovers hcalls⟩,
    e.path, s, hs, hfun, hrecord, ?_⟩
  intro list hlist
  exact listsParameters_of_parameters hspans hlist hps

namespace Typed

/-- A function with a plain parameter, a comment, and a rest parameter that has a type. -/
def source : Text := "function f(a,/**/...b:T):U\x7bg()\x7d"

def call : SyntaxNode := {
  kind := "call_expression", start := 27, stop := 30, children := [
    { kind := "identifier", start := 27, stop := 28, field := some "function" },
    { kind := "arguments", start := 28, stop := 30, field := some "arguments" }] }

def plain : SyntaxNode := {
  kind := "required_parameter", start := 11, stop := 12, children := [
    { kind := "identifier", start := 11, stop := 12, field := some "pattern" }] }

def rest : SyntaxNode := {
  kind := "required_parameter", start := 17, stop := 23, children := [
    { kind := "rest_pattern", start := 17, stop := 21, field := some "pattern", children := [
        { kind := "...", start := 17, stop := 20, named := false },
        { kind := "identifier", start := 20, stop := 21 }] },
    { kind := "type_annotation", start := 21, stop := 23, field := some "type", children := [
        { kind := ":", start := 21, stop := 22, named := false },
        { kind := "type_identifier", start := 22, stop := 23 }] }] }

def list : SyntaxNode := {
  kind := "formal_parameters", start := 10, stop := 24, field := some "parameters"
  children := [plain, { kind := "comment", start := 13, stop := 17 }, rest] }

def function : SyntaxNode := {
  kind := "function_declaration", start := 0, stop := 31, children := [
    { kind := "identifier", start := 9, stop := 10, field := some "name" }, list,
    { kind := "type_annotation", start := 24, stop := 26, field := some "return_type", children := [
        { kind := "type_identifier", start := 25, stop := 26 }] },
    { kind := "statement_block", start := 26, stop := 31, field := some "body"
      children := [call] }] }

def tree : SyntaxNode := { kind := "program", start := 0, stop := 31, children := [function] }

def declared : FunctionRecord where
  name := "f"
  parameters := [{ name := "a" }, { name := "b", type := "T" }]
  returnType := "U"
  lines := lineRange (.ofText source) 0 31
  sourceText := source
  calls := .ofList ["g"]

theorem spansWithin_tree : tree.SpansWithin := by
  simp [tree, function, list, plain, rest, call]

theorem functionSites : (Site.nesting.preorder ⟨[], tree⟩).filter (·.isFunction .typeScript) =
    [⟨[tree], function⟩] := by
  simp [Nesting.preorder_eq, Site.nesting, Site.children, SyntaxNode.namedChildren, tree, function,
    list, plain, rest, call, Site.isFunction, Profile.isFunction, Profile.typeScript]

theorem record_function :
    record .typeScript (.ofText source) [tree] function = .ok declared := by
  have hcallees : function.preorder.filterMap bareCallee =
      [{ kind := "identifier", start := 27, stop := 28, field := some "function" }] := by
    simp [SyntaxNode.preorder_eq, SyntaxNode.namedChildren, function, list, plain, rest, call,
      bareCallee, SyntaxNode.childWithField]
  refine (record_eq_ok_iff ..).2 ⟨?_, ?_, ?_, rfl, ?_, rfl, ?_⟩
  · decide +kernel
  · decide +kernel
  · decide +kernel
  · decide +kernel
  · rw [calls, hcallees]
    decide +kernel

theorem functions_tree : functions .typeScript (.ofText source) tree = .ok [declared] := by
  have hbelow : forest .typeScript (.ofText source) (Site.children ⟨[tree], function⟩) = .ok [] := by
    simp [forest, Site.children, SyntaxNode.namedChildren, function, list, plain, rest, call,
      Site.isFunction, Profile.isFunction, Profile.typeScript, pure, Except.pure, bind, Except.bind]
  have hnone : forest .typeScript (.ofText source) [] = .ok [] := by
    rw [forest]
    rfl
  have hrow : forest .typeScript (.ofText source) [⟨[tree], function⟩] = .ok [declared] := by
    rw [forest, if_pos (by decide), record_function, hbelow, hnone]
    rfl
  rw [functions_eq_forest, forest, if_neg (by decide)]
  change (forest .typeScript (.ofText source) [⟨[tree], function⟩] >>= _) = _
  rw [hrow, hnone]
  rfl

/-- The two parameters are found with their types, and the comment between them is none. -/
theorem fields_from_text_typed : tree.SpansWithin ∧
    functions .typeScript (.ofText source) tree = .ok [declared] ∧ declared.FromText ∧
    ListsParameters (.ofText source) list declared.parameters := by
  obtain ⟨hfields, path, s, hs, hfun, -, hlists⟩ := fields_from_text .typeScript (.ofText source)
    tree [declared] spansWithin_tree functions_tree declared (by simp)
  have hmem := List.mem_filter.2 ⟨Site.nesting.mem_preorder.2 ⟨path, hs⟩, hfun⟩
  rw [functionSites, List.mem_singleton] at hmem
  subst hmem
  exact ⟨spansWithin_tree, functions_tree, hfields, hlists list rfl⟩

end Typed

end Extraction

end FunctionInventory
