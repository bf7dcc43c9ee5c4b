import FunctionInventory.Proofs.TreeNodes

/-!
# Displaced sources

A source that stands in the middle of a longer text has the functions that it has alone.
Its tree has all offsets moved by the bytes in front of it, so every piece of text is cut
out at the same place; only the lines of the records are moved, by the line feeds in front.
-/
namespace FunctionInventory

namespace SyntaxNode

mutual

/-- The node with all offsets in it moved by `k`. -/
def shift (k : Nat) : SyntaxNode → SyntaxNode
  | ⟨kind, start, stop, named, field, children⟩ =>
    ⟨kind, start + k, stop + k, named, field, shiftAll k children⟩

def shiftAll (k : Nat) : List SyntaxNode → List SyntaxNode
  | [] => []
  | n :: ns => shift k n :: shiftAll k ns

end

section
variable (k : Nat) (n : SyntaxNode)

theorem shiftAll_eq_map (ns : List SyntaxNode) : shiftAll k ns = ns.map (shift k) := by
  induction ns with
  | nil => rw [shiftAll, List.map_nil]
  | cons n ns ih => rw [shiftAll, ih, List.map_cons]

@[simp] theorem kind_shift : (n.shift k).kind = n.kind := by
  cases n
  rw [shift]

@[simp] theorem start_shift : (n.shift k).start = n.start + k := by
  cases n
  rw [shift]

@[simp] theorem stop_shift : (n.shift k).stop = n.stop + k := by
  cases n
  rw [shift]

@[simp] theorem named_shift : (n.shift k).named = n.named := by
  cases n
  rw [shift]

@[simp] theorem field_shift : (n.shift k).field = n.field := by
  cases n
  rw [shift]

@[simp] theorem children_shift : (n.shift k).children = n.children.map (shift k) := by
  cases n
  rw [shift, shiftAll_eq_map]

@[simp] theorem namedChildren_shift :
    (n.shift k).namedChildren = n.namedChildren.map (shift k) := by
  rw [namedChildren, children_shift, List.filter_map]
  simp only [Function.comp_def, named_shift, namedChildren]

@[simp] theorem constructs_shift : (n.shift k).constructs = n.constructs.map (shift k) := by
  rw [constructs, namedChildren_shift, List.filter_map]
  simp only [Function.comp_def, kind_shift, constructs]

@[simp] theorem childWithField_shift (field : String) :
    (n.shift k).childWithField field = (n.childWithField field).map (shift k) := by
  rw [childWithField, children_shift, List.find?_map]
  simp only [Function.comp_def, field_shift, childWithField]

@[simp] theorem childOfKind_shift (kind : String) :
    (n.shift k).childOfKind kind = (n.childOfKind kind).map (shift k) := by
  rw [childOfKind, children_shift, List.find?_map]
  simp only [Function.comp_def, kind_shift, childOfKind]

theorem preorder_shift : (n.shift k).preorder = n.preorder.map (shift k) := by
  induction n using nesting.nestedInduction with
  | step n ih =>
    rw [preorder_eq, preorder_eq, namedChildren_shift, List.map_cons, List.flatMap_map,
      List.map_flatMap]
    exact congrArg _ (List.flatMap_congr ih)

end

/-- All offsets in the node are at most `size`. -/
inductive Within (size : Nat) : SyntaxNode → Prop where
  | intro {n : SyntaxNode} (start_le : n.start ≤ size) (stop_le : n.stop ≤ size)
    (children : ∀ m ∈ n.children, Within size m) : Within size n

theorem within_iff {size : Nat} {n : SyntaxNode} :
    n.Within size ↔ n.start ≤ size ∧ n.stop ≤ size ∧ ∀ m ∈ n.children, m.Within size := by
  constructor
  · rintro ⟨hstart, hstop, hchildren⟩
    exact ⟨hstart, hstop, hchildren⟩
  · rintro ⟨hstart, hstop, hchildren⟩
    exact .intro hstart hstop hchildren

@[simp] theorem within_mk {size start stop : Nat} {kind : String} {named : Bool}
    {field : Option String} {children : List SyntaxNode} :
    Within size ⟨kind, start, stop, named, field, children⟩ ↔
      start ≤ size ∧ stop ≤ size ∧ ∀ m ∈ children, m.Within size :=
  within_iff

namespace Within

variable {size : Nat} {n m : SyntaxNode}

theorem start_le (h : n.Within size) : n.start ≤ size := (within_iff.1 h).1

theorem stop_le (h : n.Within size) : n.stop ≤ size := (within_iff.1 h).2.1

theorem of_isNodeOf (h : n.Within size) (hm : m.IsNodeOf n) : m.Within size := by
  induction hm using Relation.ReflTransGen.head_induction_on with
  | refl => exact h
  | head hc _ ih => exact (within_iff.1 ih).2.2 _ hc

end Within

end SyntaxNode

/-- The range moved down by some lines. -/
def LineRange.shift (lines : Nat) (r : LineRange) : LineRange :=
  ⟨r.start + lines, r.stop + lines, Nat.le_add_right_of_le r.pos, Nat.add_le_add_right r.le lines⟩

namespace FunctionRecord

mutual

/-- The record moved down by some lines, with all records nested in it. -/
def shiftLines (k : Nat) : FunctionRecord → FunctionRecord
  | ⟨name, parameters, returnType, lines, sourceText, inner, calls⟩ =>
    ⟨name, parameters, returnType, lines.shift k, sourceText, shiftAllLines k inner, calls⟩

def shiftAllLines (k : Nat) : List FunctionRecord → List FunctionRecord
  | [] => []
  | r :: rs => shiftLines k r :: shiftAllLines k rs

end

theorem shiftAllLines_eq_map (k : Nat) (rs : List FunctionRecord) :
    shiftAllLines k rs = rs.map (shiftLines k) := by
  induction rs with
  | nil => rw [shiftAllLines, List.map_nil]
  | cons r rs ih => rw [shiftAllLines, ih, List.map_cons]

theorem shiftLines_with_inner (k : Nat) (r : FunctionRecord) (inner : List FunctionRecord) :
    { r.shiftLines k with inner := inner.map (shiftLines k) } =
      shiftLines k { r with inner } := by
  cases r
  simp only [shiftLines, shiftAllLines_eq_map]

end FunctionRecord

namespace SourceText

/-- Up to an offset, the second source is the first one moved by some bytes and lines. -/
structure Displaced (src src' : SourceText) (size offset lines : Nat) : Prop where
  extract_eq : ∀ i j, i ≤ size → j ≤ size →
    src'.bytes.extract (i + offset) (j + offset) = src.bytes.extract i j
  one_le_lineOf : ∀ i : Nat, 1 ≤ src.lineOf i
  lineOf_eq : ∀ i : Nat, i ≤ size → src'.lineOf ((i + offset : Nat) : Int) = src.lineOf i + lines

theorem displaced_append (before text after : Text) :
    Displaced (.ofText text) (.ofText (before ++ text ++ after)) text.encode.length
      before.encode.length (before.count (CodePoint.ofChar '\n')) where
  extract_eq := by
    intro i j hi hj
    apply Array.toList_inj.1
    have hdrop : (before.encode ++ text.encode ++ after.encode).drop (i + before.encode.length) =
        text.encode.drop i ++ after.encode := by
      rw [List.append_assoc, Nat.add_comm, List.drop_length_add_append,
        List.drop_append_of_le_length hi]
    have htake : j - i ≤ (text.encode.drop i).length := by
      rw [List.length_drop]
      omega
    simp only [ofText, ofBytes, Array.toList_extract, List.extract_eq_take_drop,
      Text.encode_append, hdrop, Nat.add_sub_add_right, List.take_append_of_le_length htake]
  one_le_lineOf := SourceText.one_le_lineOf _
  lineOf_eq := by
    intro i hi
    have htake : (before.encode ++ text.encode ++ after.encode).take (i + before.encode.length) =
        before.encode ++ text.encode.take i := by
      rw [List.append_assoc, Nat.add_comm, List.take_length_add_append,
        List.take_append_of_le_length hi]
    rw [ofText, ofText, lineOf_eq_count, lineOf_eq_count, ← Text.count_encode]
    simp only [Text.encode_append, htake, List.count_append]
    omega

namespace Displaced

variable {src src' : SourceText} {size offset lines : Nat}

theorem slice_eq (h : Displaced src src' size offset lines) {i j : Nat} (hi : i ≤ size)
    (hj : j ≤ size) : src'.slice (i + offset) (j + offset) = src.slice i j := by
  rw [slice, slice, h.extract_eq i j hi hj]

theorem sliceStrict_eq (h : Displaced src src' size offset lines) {i j : Nat} (hi : i ≤ size)
    (hj : j ≤ size) : src'.sliceStrict (i + offset) (j + offset) = src.sliceStrict i j := by
  rw [sliceStrict, sliceStrict, h.extract_eq i j hi hj]

end Displaced

end SourceText

namespace Extraction

variable {src src' : SourceText} {size offset lines : Nat} {n : SyntaxNode}

theorem bareCallee_shift (k : Nat) (n : SyntaxNode) :
    bareCallee (n.shift k) = (bareCallee n).map (.shift k) := by
  simp only [bareCallee, SyntaxNode.kind_shift, SyntaxNode.childWithField_shift, Option.any_map]
  split
  · rfl
  · split
    · rfl
    · cases n.childWithField "function" with
      | none => rfl
      | some c =>
        simp only [Option.map_some, SyntaxNode.kind_shift]
        split <;> rfl

theorem calls_shift (h : src.Displaced src' size offset lines) (hn : n.Within size) :
    calls src' (n.shift offset) = calls src n := by
  have hcallees : (n.shift offset).preorder.filterMap bareCallee =
      (n.preorder.filterMap bareCallee).map (.shift offset) := by
    rw [SyntaxNode.preorder_shift, List.filterMap_map, List.map_filterMap]
    exact List.filterMap_congr fun m _ => bareCallee_shift offset m
  rw [calls, calls, hcallees, List.mapM_map]
  congr 1
  apply mapM_congr
  intro c hc
  obtain ⟨m, hm, hc⟩ := List.mem_filterMap.1 hc
  have hcallee := (bareCallee_eq_some_iff.1 hc).callee
  have hwithin := hn.of_isNodeOf (.trans (.of_childWithField hcallee) (.of_mem_preorder hm))
  simp only [Function.comp_apply, SyntaxNode.start_shift, SyntaxNode.stop_shift]
  exact h.sliceStrict_eq hwithin.start_le hwithin.stop_le

theorem textOf_shift (h : src.Displaced src' size offset lines) (hn : n.Within size) :
    textOf src' (n.shift offset) = textOf src n := by
  rw [textOf, SyntaxNode.start_shift, SyntaxNode.stop_shift]
  exact h.slice_eq hn.start_le hn.stop_le

theorem annotationText_shift (h : src.Displaced src' size offset lines) (hn : n.Within size) :
    annotationText src' (n.shift offset) = annotationText src n := by
  unfold annotationText
  rw [SyntaxNode.constructs_shift, textOf_shift h hn]
  cases hc : n.constructs with
  | nil => rfl
  | cons first rest =>
    have hfirst : first.Within size := hn.of_isNodeOf (.of_mem_constructs (by simp [hc]))
    have hlast : ((first :: rest).getLast (by simp)).Within size := by
      refine hn.of_isNodeOf (.of_mem_constructs ?_)
      rw [hc]
      exact List.getLast_mem _
    have hstop : (((first :: rest).map (SyntaxNode.shift offset)).getLast (by simp)).stop =
        ((first :: rest).getLast (by simp)).stop + offset := by
      rw [List.getLast_map, SyntaxNode.stop_shift]
    change src'.slice (first.shift offset).start _ = _
    rw [SyntaxNode.start_shift]
    refine Eq.trans ?_ (h.slice_eq hfirst.start_le hlast.stop_le)
    exact congrArg _ hstop

mutual

theorem patternName_shift (h : src.Displaced src' size offset lines) :
    (n : SyntaxNode) → n.Within size → patternName src' (n.shift offset) = patternName src n
  | ⟨kind, start, stop, named, field, children⟩, hn => by
    have htext := textOf_shift h hn
    have hconstructs := SyntaxNode.constructs_shift offset
      ⟨kind, start, stop, named, field, children⟩
    have hleft := leftName_shift h children fun m hm => hn.of_isNodeOf (.of_mem_children hm)
    rw [SyntaxNode.shift] at htext hconstructs ⊢
    rw [patternName, patternName]
    simp only [htext, hconstructs, hleft]
    split
    · cases hc : (SyntaxNode.mk kind start stop named field children).constructs with
      | nil => rfl
      | cons inner rest => exact textOf_shift h (hn.of_isNodeOf (.of_mem_constructs (by simp [hc])))
    · rfl

theorem leftName_shift (h : src.Displaced src' size offset lines) :
    (ns : List SyntaxNode) → (∀ n ∈ ns, n.Within size) →
      leftName src' (SyntaxNode.shiftAll offset ns) = leftName src ns
  | [], _ => by rw [SyntaxNode.shiftAll, leftName, leftName]
  | n :: ns, hns => by
    have hfirst := patternName_shift h n (hns n List.mem_cons_self)
    have hrest := leftName_shift h ns fun m hm => hns m (List.mem_cons_of_mem n hm)
    rw [SyntaxNode.shiftAll, leftName, leftName, SyntaxNode.field_shift, hfirst, hrest]

end

theorem parameter_shift (h : src.Displaced src' size offset lines) (hn : n.Within size) :
    parameter src' (n.shift offset) = parameter src n := by
  unfold parameter
  simp only [SyntaxNode.kind_shift, SyntaxNode.childWithField_shift, SyntaxNode.childOfKind_shift,
    patternName_shift h n hn, textOf_shift h hn]
  have horElse : (((n.childWithField "type").map (SyntaxNode.shift offset)).orElse
      fun _ => (n.childOfKind "type_annotation").map (SyntaxNode.shift offset)) =
      ((n.childWithField "type").orElse fun _ => n.childOfKind "type_annotation").map
        (SyntaxNode.shift offset) := by
    cases n.childWithField "type" <;> rfl
  have htype : ∀ a, ((n.childWithField "type").orElse
      fun _ => n.childOfKind "type_annotation") = some a →
      annotationText src' (a.shift offset) = annotationText src a := by
    intro a ha
    apply annotationText_shift h
    cases hfield : n.childWithField "type" with
    | none => exact hn.of_isNodeOf (.of_childOfKind (by simpa [hfield] using ha))
    | some b =>
      obtain rfl : b = a := by simpa [hfield] using ha
      exact hn.of_isNodeOf (.of_childWithField hfield)
  rw [horElse]
  cases ha : (n.childWithField "type").orElse fun _ => n.childOfKind "type_annotation" with
  | none =>
    cases hpattern : n.childWithField "pattern" with
    | none => rfl
    | some pattern =>
      have hwithin := hn.of_isNodeOf (.of_childWithField hpattern)
      simp only [Option.map_some, patternName_shift h pattern hwithin]
      rfl
  | some a =>
    cases hpattern : n.childWithField "pattern" with
    | none => simp only [Option.map_none, Option.map_some, htype a ha]
    | some pattern =>
      have hwithin := hn.of_isNodeOf (.of_childWithField hpattern)
      simp only [Option.map_some, patternName_shift h pattern hwithin, htype a ha]

theorem parameters_shift (h : src.Displaced src' size offset lines) (hn : n.Within size) :
    parameters src' (n.shift offset) = parameters src n := by
  unfold parameters
  simp only [SyntaxNode.childWithField_shift]
  cases hlist : n.childWithField "parameters" with
  | some list =>
    have hlist := hn.of_isNodeOf (.of_childWithField hlist)
    simp only [Option.map_some, SyntaxNode.constructs_shift, List.mapM_map]
    exact mapM_congr fun m hm => parameter_shift h (hlist.of_isNodeOf (.of_mem_constructs hm))
  | none =>
    cases hsingle : n.childWithField "parameter" with
    | none => rfl
    | some single =>
      have hwithin := hn.of_isNodeOf (.of_childWithField hsingle)
      simp only [Option.map_none, Option.map_some, textOf_shift h hwithin]

theorem returnType_shift (h : src.Displaced src' size offset lines) (hn : n.Within size) :
    returnType src' (n.shift offset) = returnType src n := by
  unfold returnType
  rw [SyntaxNode.childWithField_shift]
  cases hann : n.childWithField "return_type" with
  | none => rfl
  | some a =>
    have hwithin := hn.of_isNodeOf (.of_childWithField hann)
    simp only [Option.map_some, annotationText_shift h hwithin]

section
variable (p : Profile) (ancestors : List SyntaxNode)

theorem declares_shift (k : Nat) (n : SyntaxNode) :
    declares p (ancestors.map (.shift k)) (n.shift k) = declares p ancestors n := by
  unfold declares isDefaultExport
  cases ancestors with
  | nil => simp only [List.map_nil, SyntaxNode.kind_shift]
  | cons parent rest =>
    simp only [List.map_cons, SyntaxNode.kind_shift, SyntaxNode.childOfKind_shift,
      Option.isSome_map]

theorem functionName_shift (h : src.Displaced src' size offset lines) (hn : n.Within size) :
    functionName p src' (ancestors.map (.shift offset)) (n.shift offset) =
      functionName p src ancestors n := by
  unfold functionName
  rw [declares_shift, SyntaxNode.childWithField_shift]
  cases hname : n.childWithField "name" with
  | none => rfl
  | some name =>
    have hwithin := hn.of_isNodeOf (.of_childWithField hname)
    simp only [Option.map_some, textOf_shift h hwithin]

theorem extentStart_shift (k : Nat) (n : SyntaxNode) :
    extentStart p (ancestors.map (.shift k)) (n.shift k) = extentStart p ancestors n + k := by
  unfold extentStart
  rw [declares_shift, List.takeWhile_map, List.getLast?_map]
  simp only [Function.comp_def, SyntaxNode.kind_shift, SyntaxNode.start_shift]
  split
  · cases (ancestors.takeWhile fun a => p.wrappers.contains a.kind).getLast? with
    | none => rfl
    | some a => simp only [Option.map_some, Option.elim_some, SyntaxNode.start_shift]
  · rfl

theorem lineRange_shift (h : src.Displaced src' size offset lines) {start stop : Nat}
    (hstart : start ≤ size) (hstop : stop ≤ size) :
    lineRange src' (start + offset) (stop + offset) = (lineRange src start stop).shift lines := by
  have hfirst := h.lineOf_eq start hstart
  have hpos := h.one_le_lineOf start
  simp only [lineRange, LineRange.shift, LineRange.mk.injEq, hfirst]
  refine ⟨by omega, ?_⟩
  by_cases hlt : start < stop
  · have hlast := h.lineOf_eq (stop - 1) (by omega)
    rw [show stop - 1 + offset = stop + offset - 1 by omega] at hlast
    rw [if_pos hlt, if_pos (by omega), hlast]
    omega
  · rw [if_neg hlt, if_neg (by omega)]
    omega

theorem record_shift (h : src.Displaced src' size offset lines) (hn : n.Within size)
    (hancestors : ∀ a ∈ ancestors, a.Within size) :
    record p src' (ancestors.map (.shift offset)) (n.shift offset) =
      (record p src ancestors n).map (.shiftLines lines) := by
  have hstart : extentStart p ancestors n ≤ size := by
    rcases extentStart_cases p ancestors n with heq | ⟨a, ha, heq⟩
    · rw [heq]
      exact hn.start_le
    · rw [heq]
      exact (hancestors a ((List.takeWhile_prefix _).subset ha)).start_le
  unfold record
  dsimp only
  rw [extentStart_shift, SyntaxNode.stop_shift, functionName_shift p ancestors h hn,
    parameters_shift h hn, returnType_shift h hn, lineRange_shift h hstart hn.stop_le,
    h.slice_eq hstart hn.stop_le, calls_shift h hn]
  cases functionName p src ancestors n with
  | error e => rfl
  | ok name =>
  cases parameters src n with
  | error e => rfl
  | ok ps =>
  cases returnType src n with
  | error e => rfl
  | ok returns =>
  cases src.slice (extentStart p ancestors n) n.stop with
  | error e => rfl
  | ok text =>
  cases calls src n with
  | error e => rfl
  | ok names => rfl

end

namespace Site

/-- The site with all offsets moved by `k`. -/
def shift (k : Nat) (s : Site) : Site := ⟨s.ancestors.map (.shift k), s.node.shift k⟩

/-- All offsets at the site are at most `size`. -/
def Within (size : Nat) (s : Site) : Prop :=
  s.node.Within size ∧ ∀ a ∈ s.ancestors, a.Within size

theorem isFunction_shift (p : Profile) (k : Nat) (s : Site) :
    (s.shift k).isFunction p = s.isFunction p := by
  simp only [isFunction, shift, Profile.isFunction, SyntaxNode.named_shift, SyntaxNode.kind_shift]

theorem children_shift (k : Nat) (s : Site) : (s.shift k).children = s.children.map (shift k) := by
  simp only [children, shift, SyntaxNode.namedChildren_shift, List.map_map, Function.comp_def,
    List.map_cons]

theorem Within.children {s : Site} (h : s.Within size) : ∀ t ∈ s.children, t.Within size := by
  intro t ht
  obtain ⟨n, hn, rfl⟩ := List.mem_map.1 ht
  exact ⟨h.1.of_isNodeOf (.of_mem_namedChildren hn), List.forall_mem_cons.2 h⟩

end Site

theorem forest_shift (p : Profile) (h : src.Displaced src' size offset lines) (row : List Site)
    (hrow : ∀ s ∈ row, s.Within size) :
    forest p src' (row.map (.shift offset)) =
      (forest p src row).map (List.map (.shiftLines lines)) := by
  fun_induction forest p src row with
  | case1 =>
    rw [List.map_nil, forest]
    rfl
  | case2 s rest hs ih₁ ih₂ =>
    obtain ⟨hsite, hrest⟩ := List.forall_mem_cons.1 hrow
    have hrecord : record p src' (s.shift offset).ancestors (s.shift offset).node =
        (record p src s.ancestors s.node).map (.shiftLines lines) :=
      record_shift p s.ancestors h hsite.1 hsite.2
    rw [List.map_cons, forest, Site.isFunction_shift, if_pos hs, Site.children_shift,
      ih₁ hsite.children, ih₂ hrest, hrecord]
    cases record p src s.ancestors s.node with
    | error e => rfl
    | ok r =>
    cases forest p src s.children with
    | error e => rfl
    | ok inner =>
    cases forest p src rest with
    | error e => rfl
    | ok later =>
      change Except.ok (_ :: _) = Except.ok (_ :: _)
      rw [FunctionRecord.shiftLines_with_inner]
  | case3 s rest hs ih₁ ih₂ =>
    obtain ⟨hsite, hrest⟩ := List.forall_mem_cons.1 hrow
    rw [List.map_cons, forest, Site.isFunction_shift, if_neg hs, Site.children_shift,
      ih₁ hsite.children, ih₂ hrest]
    cases forest p src s.children with
    | error e => rfl
    | ok outer =>
    cases forest p src rest with
    | error e => rfl
    | ok later => exact congrArg Except.ok List.map_append.symm

/-- Extraction does not depend on where a source stands. In the middle of a longer text, with
the offsets of the tree moved behind what comes before it, a source has the functions that it
has alone, or fails as it does alone; the lines of all records, nested ones included, are moved
down by the line feeds in front. -/
theorem functions_displaced (p : Profile) (before text after : Text) (root : SyntaxNode)
    (h : root.Within text.encode.length) :
    functions p (.ofText (before ++ text ++ after)) (root.shift before.encode.length) =
      (functions p (.ofText text) root).map
        (List.map (.shiftLines (before.count (CodePoint.ofChar '\n')))) := by
  have hdisplaced := SourceText.displaced_append before text after
  have hsite : Site.Within text.encode.length ⟨[], root⟩ := ⟨h, by simp⟩
  rw [functions_eq_forest, functions_eq_forest]
  exact forest_shift p hdisplaced [⟨[], root⟩] (by simpa using hsite)

namespace Sample

/-- A letter of two bytes and a lone surrogate, each on a line of its own. -/
def prelude : Text := [0xe9, 10, 0xd800, 10]

theorem tree_within :
    tree.Within (Text.encode "export default function f(x){return g(()=>x)}").length := by
  have hlength : (Text.encode "export default function f(x){return g(()=>x)}").length = 45 := by
    decide
  simp [hlength, tree, wrapper, function, body, call, arguments, arrow]

theorem functions_displaced_sample :
    tree.Within (Text.encode "export default function f(x){return g(()=>x)}").length ∧
    functions .javaScript
        (.ofText (prelude ++ "export default function f(x){return g(()=>x)}" ++ prelude))
        (tree.shift prelude.encode.length) =
      (functions .javaScript (.ofText "export default function f(x){return g(()=>x)}") tree).map
        (List.map (.shiftLines (prelude.count (CodePoint.ofChar '\n')))) :=
  ⟨tree_within, functions_displaced .javaScript prelude _ prelude tree tree_within⟩

end Sample

end Extraction

end FunctionInventory
