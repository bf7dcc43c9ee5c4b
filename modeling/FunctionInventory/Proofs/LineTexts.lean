import FunctionInventory.Proofs.Extents
import FunctionInventory.Proofs.Slices

/-!
# Lines and texts of records

The lines of a record are found from byte offsets, by a table and a search; its text is cut
out of the bytes. Both speak of the same part of the source: the text starts on the first of
the lines and ends on the last one, so that no fewer lines hold it.
-/
namespace FunctionInventory

namespace Text

/-- Puts a code point in front of the first line. -/
def startLine (c : CodePoint) : List Text → List Text
  | [] => [[c]]
  | first :: rest => (c :: first) :: rest

/-- The lines of a text, each with the line feed that ends it. -/
def lines : Text → List Text
  | [] => []
  | c :: t => if c = CodePoint.ofChar '\n' then [c] :: lines t else startLine c (lines t)

/-- The text of the lines from `first` to `last`, counted from one. -/
def linesBetween (t : Text) (first last : Nat) : Text :=
  ((t.lines.take last).drop (first - 1)).flatten

/-- The code point with number `k`, counted from zero, stands on line `n`, counted from one. -/
def OnLine (t : Text) (k n : Nat) : Prop :=
  (t.lines.take (n - 1)).flatten.length ≤ k ∧ k < (t.lines.take n).flatten.length

@[simp] theorem flatten_startLine (c : CodePoint) (ls : List Text) :
    (startLine c ls).flatten = c :: ls.flatten := by
  cases ls <;> simp [startLine]

@[simp] theorem flatten_take_startLine (c : CodePoint) (ls : List Text) (k : Nat) :
    ((startLine c ls).take (k + 1)).flatten = c :: (ls.take (k + 1)).flatten := by
  cases ls <;> simp [startLine]

/-- The lines make up the text. -/
theorem flatten_lines (t : Text) : t.lines.flatten = t := by
  induction t with
  | nil => rfl
  | cons c t ih =>
    rw [lines]
    split_ifs <;> simp [ih]

/-- A line has its line feed at its end, and no other. -/
theorem isLine_of_mem_lines {t line : Text} (h : line ∈ t.lines) :
    line ≠ [] ∧ CodePoint.ofChar '\n' ∉ line.dropLast := by
  induction t generalizing line with
  | nil => simp [lines] at h
  | cons c t ih =>
    rw [lines] at h
    split_ifs at h with hc
    · rcases List.mem_cons.1 h with rfl | h
      · simp
      · exact ih h
    · cases hls : lines t with
      | nil =>
        simp only [hls, startLine, List.mem_singleton] at h
        simp [h]
      | cons first rest =>
        simp only [hls, startLine, List.mem_cons] at h
        rcases h with rfl | h
        · have hmem : first ∈ lines t := by simp [hls]
          obtain ⟨hne, hfeed⟩ := ih hmem
          simp only [List.dropLast_cons_of_ne_nil hne, List.mem_cons, not_or]
          exact ⟨by simp, Ne.symm hc, hfeed⟩
        · exact ih (by simp [hls, h])

/-- A code point stands on the line whose number is one more than that of the line feeds
before it. -/
theorem onLine_count (before : Text) (c : CodePoint) (after : Text) :
    OnLine (before ++ c :: after) before.length (before.count (CodePoint.ofChar '\n') + 1) := by
  rw [OnLine, Nat.add_sub_cancel]
  induction before with
  | nil =>
    rw [List.nil_append, lines]
    split_ifs <;> simp
  | cons d before ih =>
    rw [List.cons_append, lines]
    by_cases hd : d = CodePoint.ofChar '\n'
    · rw [if_pos hd]
      simp only [List.count_cons, List.take_succ_cons, List.flatten_cons,
        List.length_append, List.length_cons, List.length_nil, hd, beq_self_eq_true, if_true]
      omega
    · have hcount : (d :: before).count (CodePoint.ofChar '\n') =
          before.count (CodePoint.ofChar '\n') := List.count_cons_of_ne hd
      rw [hcount, if_neg hd]
      cases hk : before.count (CodePoint.ofChar '\n') with
      | zero =>
        rw [hk] at ih
        simp only [flatten_take_startLine, List.take_zero, List.flatten_nil, List.length_nil,
          List.length_cons]
        omega
      | succ k =>
        rw [hk] at ih
        simp only [flatten_take_startLine, List.length_cons]
        omega

/-- What stands within the bounds of the middle of three parts is a part of it. -/
theorem isInfix_of_bounds {x y z before part after : Text}
    (h : x ++ y ++ z = before ++ part ++ after) (hstart : x.length ≤ before.length)
    (hstop : (before ++ part).length ≤ (x ++ y).length) : part <:+: y := by
  have hx : x <+: before := by
    have hfirst : x <+: x ++ y ++ z := by simp
    have hbefore : before <+: x ++ y ++ z := by simp [h]
    exact List.prefix_of_prefix_length_le hfirst hbefore hstart
  obtain ⟨lead, rfl⟩ := hx
  have hrest : y ++ z = lead ++ part ++ after := by simpa using h
  have hlead : lead ++ part <+: y := by
    have hpart : lead ++ part <+: y ++ z := by simp [hrest]
    refine List.prefix_of_prefix_length_le hpart (by simp) ?_
    simp only [List.length_append] at hstop ⊢
    omega
  obtain ⟨rest, hy⟩ := hlead
  exact ⟨lead, rest, hy⟩

theorem flatten_take_append_linesBetween (t : Text) {first last : Nat} (h : first ≤ last) :
    (t.lines.take (first - 1)).flatten ++ t.linesBetween first last =
      (t.lines.take last).flatten := by
  have htake : t.lines.take (first - 1) = (t.lines.take last).take (first - 1) := by
    rw [List.take_take, Nat.min_eq_left (by omega)]
  rw [htake, linesBetween, ← List.flatten_append, List.take_append_drop]

/-- A part of a text that starts on one line and ends on another is in the text of the lines
between the two. -/
theorem isInfix_linesBetween {t before part after : Text} {first last : Nat}
    (ht : t = before ++ part ++ after) (hle : first ≤ last)
    (hfirst : t.OnLine before.length first)
    (hlast : t.OnLine (before.length + part.length - 1) last) :
    part <:+: t.linesBetween first last := by
  have hupto := t.flatten_take_append_linesBetween hle
  have hparts : (t.lines.take (first - 1)).flatten ++ t.linesBetween first last ++
      (t.lines.drop last).flatten = before ++ part ++ after := by
    rw [hupto, ← List.flatten_append, List.take_append_drop, flatten_lines, ht]
  refine isInfix_of_bounds hparts hfirst.1 ?_
  have hend := hlast.2
  rw [hupto, List.length_append]
  omega

/-- A part of a text has no more line feeds than the text, its last place left out in both. -/
theorem count_dropLast_le_of_isInfix {part t : Text} (h : part <:+: t) (c : CodePoint) :
    part.dropLast.count c ≤ t.dropLast.count c := by
  obtain ⟨before, after, rfl⟩ := h
  by_cases hafter : after = []
  · by_cases hpart : part = []
    · simp [hpart]
    · rw [hafter, List.append_nil, List.dropLast_append_of_ne_nil hpart, List.count_append]
      omega
  · have hle : part.dropLast.count c ≤ part.count c := (List.dropLast_sublist part).count_le c
    rw [List.dropLast_append_of_ne_nil hafter, List.count_append, List.count_append]
    omega

/-- Lines have fewer line feeds than they are, the last place left out. -/
theorem count_dropLast_flatten_lt {ls : List Text} (hne : ls ≠ [])
    (h : ∀ line ∈ ls, line ≠ [] ∧ CodePoint.ofChar '\n' ∉ line.dropLast) :
    ls.flatten.dropLast.count (CodePoint.ofChar '\n') < ls.length := by
  induction ls with
  | nil => contradiction
  | cons line ls ih =>
    obtain ⟨⟨hline, hfeed⟩, hrest⟩ := List.forall_mem_cons.1 h
    have hzero : line.dropLast.count (CodePoint.ofChar '\n') = 0 := List.count_eq_zero.2 hfeed
    by_cases hls : ls = []
    · simp [hls, hzero]
    · have hflat : ls.flatten ≠ [] := by
        obtain ⟨next, rest, rfl⟩ := List.exists_cons_of_ne_nil hls
        simp [(hrest next (by simp)).1]
      have hone : line.count (CodePoint.ofChar '\n') ≤ 1 := by
        rw [← List.dropLast_append_getLast hline, List.count_append, hzero, Nat.zero_add]
        exact List.count_le_length
      have hlater := ih hls hrest
      rw [List.flatten_cons, List.dropLast_append_of_ne_nil hflat, List.count_append,
        List.length_cons]
      omega

/-- A part of some lines has fewer line feeds than they are, the last place left out. -/
theorem count_dropLast_lt_of_isInfix {t part : Text} {first last : Nat} (hne : part ≠ [])
    (h : part <:+: t.linesBetween first last) :
    part.dropLast.count (CodePoint.ofChar '\n') < last - (first - 1) := by
  have hlines : (t.lines.take last).drop (first - 1) ≠ [] := by
    intro hnil
    rw [linesBetween, hnil, List.flatten_nil] at h
    exact hne (List.infix_nil.1 h)
  have hcount := count_dropLast_flatten_lt hlines fun line hline =>
    isLine_of_mem_lines (List.mem_of_mem_take (List.mem_of_mem_drop hline))
  have hpart := count_dropLast_le_of_isInfix h (CodePoint.ofChar '\n')
  rw [linesBetween] at hpart
  rw [List.length_drop, List.length_take] at hcount
  omega

/-- The lines are those of a part of a text that stands behind `before`: it starts on the first
and ends on the last of them, and none of them can be left out. -/
structure SpansLines (t before part : Text) (range : LineRange) : Prop where
  nonempty : part ≠ []
  first : t.OnLine before.length range.start
  last : t.OnLine (before.length + part.length - 1) range.stop
  contained : part <:+: t.linesBetween range.start range.stop
  narrowest : ∀ first last, range.start ≤ first → last ≤ range.stop →
    part <:+: t.linesBetween first last → first = range.start ∧ last = range.stop
  count : range.stop - range.start = part.dropLast.count (CodePoint.ofChar '\n')

/-- The line feeds in front of a part and in it decide its lines. -/
theorem spansLines_of_count {before part after : Text} (hne : part ≠ []) {range : LineRange}
    (hstart : range.start = before.count (CodePoint.ofChar '\n') + 1)
    (hstop : range.stop = (before ++ part.dropLast).count (CodePoint.ofChar '\n') + 1) :
    SpansLines (before ++ part ++ after) before part range := by
  have hcount : range.stop - range.start = part.dropLast.count (CodePoint.ofChar '\n') := by
    rw [hstart, hstop, List.count_append]
    omega
  have hfirst : OnLine (before ++ part ++ after) before.length range.start := by
    obtain ⟨c, rest, rfl⟩ := List.exists_cons_of_ne_nil hne
    have h := onLine_count before c (rest ++ after)
    rw [hstart]
    simpa using h
  have hlast : OnLine (before ++ part ++ after) (before.length + part.length - 1) range.stop := by
    have hlength : before.length + part.length - 1 = (before ++ part.dropLast).length := by
      have hpos := List.length_pos_iff.2 hne
      simp only [List.length_append, List.length_dropLast]
      omega
    have hparts : before ++ part ++ after =
        before ++ part.dropLast ++ part.getLast hne :: after := by
      conv_lhs => rw [← List.dropLast_append_getLast hne]
      simp
    rw [hlength, hparts, hstop]
    exact onLine_count _ _ after
  refine ⟨hne, hfirst, hlast, isInfix_linesBetween rfl range.le hfirst hlast, ?_, hcount⟩
  intro first last hge hle h
  have hlt := count_dropLast_lt_of_isInfix hne h
  have hpos := range.pos
  have horder := range.le
  omega

end Text

namespace SourceText

theorem lineOf_length (before after : Text) :
    (ofText (before ++ after)).lineOf (before.encode.length : Nat) =
      before.count (CodePoint.ofChar '\n') + 1 := by
  rw [ofText, lineOf_eq_count, ← Text.count_encode]
  simp

theorem count_dropLast_encode (c : CodePoint) : c.encode.dropLast.count 10 = 0 := by
  by_cases hc : c = CodePoint.ofChar '\n'
  · rw [hc]
    decide
  · have hle := (List.dropLast_sublist c.encode).count_le 10
    rw [CodePoint.count_encode, if_neg hc] at hle
    omega

/-- The last byte of a code point is on the line of the code point. -/
theorem lineOf_length_sub_one (before : Text) (c : CodePoint) (after : Text) :
    (ofText (before ++ c :: after)).lineOf ((Text.encode (before ++ [c])).length - 1 : Nat) =
      before.count (CodePoint.ofChar '\n') + 1 := by
  have hpos := List.length_pos_iff.2 (CodePoint.encode_ne_nil c)
  have hlength : (Text.encode (before ++ [c])).length - 1 =
      before.encode.length + (c.encode.length - 1) := by
    simp only [Text.encode_append, Text.encode_cons, Text.encode_nil, List.append_nil,
      List.length_append]
    omega
  have htake : (Text.encode (before ++ c :: after)).take
      (before.encode.length + (c.encode.length - 1)) = before.encode ++ c.encode.dropLast := by
    rw [Text.encode_append, Text.encode_cons, List.take_length_add_append,
      List.take_append_of_le_length (by omega), List.dropLast_eq_take]
  rw [ofText, lineOf_eq_count, hlength, ← Text.count_encode]
  simp only [htake, List.count_append, count_dropLast_encode, Nat.add_zero]

end SourceText

namespace Extraction

open Text

variable {p : Profile} {root : SyntaxNode} {t : Text}

/-- The lines of an extent are found by the line feeds in front of its text and in it. -/
theorem lineRange_of_part (before after : Text) {part : Text} (hne : part ≠ []) :
    SpansLines (before ++ part ++ after) before part
      (lineRange (.ofText (before ++ part ++ after)) before.encode.length
        (before ++ part).encode.length) := by
  have hlt : before.encode.length < (before ++ part).encode.length := by
    have hpos : 0 < part.encode.length := by
      rw [List.length_pos_iff, Ne, encode_eq_nil_iff]
      exact hne
    rw [encode_append, List.length_append]
    omega
  have hfirst : (SourceText.ofText (before ++ part ++ after)).lineOf (before.encode.length : Nat) =
      before.count (CodePoint.ofChar '\n') + 1 := by
    rw [List.append_assoc]
    exact SourceText.lineOf_length before (part ++ after)
  have hlast : (SourceText.ofText (before ++ part ++ after)).lineOf
      ((before ++ part).encode.length - 1 : Nat) =
        (before ++ part.dropLast).count (CodePoint.ofChar '\n') + 1 := by
    have h := SourceText.lineOf_length_sub_one (before ++ part.dropLast) (part.getLast hne) after
    have hparts : before ++ part.dropLast ++ [part.getLast hne] = before ++ part := by
      rw [List.append_assoc, List.dropLast_append_getLast]
    rw [hparts] at h
    rw [← h, ← hparts]
    simp
  apply spansLines_of_count hne
  · simp only [lineRange, hfirst]
    omega
  · simp only [lineRange, if_pos hlt, hfirst, hlast, List.count_append]
    omega

/-- In a tree whose spans are nested and end within the source, and whose functions have
nonempty spans: the text of every record, at whatever depth, is what stands in the source from
the start of its extent to its end. It starts on the first line of the record and ends on the
last one, is in the text of these lines and in that of no fewer of them, and has as many line
feeds as the lines have steps, one at its very end left out. -/
theorem lines_match_text (p : Profile) (t : Text) (root : SyntaxNode) (rs : List FunctionRecord)
    (h : functions p (.ofText t) root = .ok rs) (spans : SpansNested ⟨[], root⟩)
    (bounded : root.stop ≤ t.encode.length) (nonempty : FunctionsNonempty p root) :
    ∀ r ∈ FunctionRecord.walkAll rs, ∃ path s before after, siteAt? root path = some s ∧
      s.isFunction p ∧ record p (.ofText t) s.ancestors s.node = .ok { r with inner := [] } ∧
      t = before ++ r.sourceText ++ after ∧
      before.encode.length = extentStart p s.ancestors s.node ∧
      (before ++ r.sourceText).encode.length = s.node.stop ∧
      SpansLines t before r.sourceText r.lines := by
  rw [functions_eq_forest] at h
  obtain ⟨table, htable⟩ := exists_table p _ h
  intro r hr
  obtain ⟨e, he, rfl⟩ := (htable.mem_walkAll_iff r).1 hr
  obtain ⟨s, hs, hfun, hrecord⟩ := htable.exists_site he
  obtain ⟨-, -, -, hlines, htext, -⟩ := (record_eq_ok_iff _ _).1 hrecord
  have hlt : extentStart p s.ancestors s.node < s.node.stop := by
    have hstart := extentStart_le_start p spans hs
    have hspan := nonempty e.path s hs hfun
    omega
  have hstop : s.node.stop ≤ t.encode.length := by
    have hwithin := (spans.ancestors_eq hs).1.2
    exact hwithin.trans bounded
  obtain ⟨before, after, ht, hbefore, hpart⟩ := SourceText.isBetween_of_slice hlt hstop htext
  have hne : e.record.sourceText ≠ [] := by
    intro hnil
    simp only [hnil, List.append_nil] at hpart
    omega
  have hrange := lineRange_of_part before after hne
  rw [← ht, hbefore, hpart, ← hlines] at hrange
  exact ⟨e.path, s, before, after, hs, hfun, hrecord, ht, hbefore, hpart, hrange⟩

namespace TwoLines

/-- A letter of two bytes, and a function on the two lines below it. -/
def source : Text := "é\nfunction f() \x7b\n\x7d\n"

def function : SyntaxNode := {
  kind := "function_declaration", start := 3, stop := 19, children := [
    { kind := "identifier", start := 12, stop := 13, field := some "name" },
    { kind := "formal_parameters", start := 13, stop := 15, field := some "parameters" }] }

def tree : SyntaxNode := { kind := "program", start := 0, stop := 20, children := [function] }

theorem functionSites : (Site.nesting.preorder ⟨[], tree⟩).filter (·.isFunction .javaScript) =
    [⟨[tree], function⟩] := by
  simp [Nesting.preorder_eq, Site.nesting, Site.children, SyntaxNode.namedChildren, tree, function,
    Site.isFunction, Profile.isFunction, Profile.javaScript]

theorem record_function : record .javaScript (.ofText source) [tree] function = .ok {
    name := "f"
    lines := lineRange (.ofText source) 3 19
    sourceText := "function f() \x7b\n\x7d" } := by
  have hcallees : function.preorder.filterMap bareCallee = [] := by
    simp [SyntaxNode.preorder_eq, SyntaxNode.namedChildren, function, bareCallee]
  have hcalls : calls (.ofText source) function = .ok ∅ := by
    rw [calls, hcallees]
    rfl
  refine (record_eq_ok_iff ..).2 ⟨?_, rfl, rfl, rfl, ?_, rfl, hcalls⟩
  all_goals decide +kernel

theorem exists_functions : ∃ rs, functions .javaScript (.ofText source) tree = .ok rs := by
  have hreadable : Readable .javaScript (.ofText source) tree := by
    rw [Readable, forall_functions_iff, functionSites, List.forall_mem_singleton]
    exact ⟨_, record_function⟩
  rw [functions_eq_forest]
  exact hreadable.exists_forest

theorem nodes : tree.preorder =
    [tree, function, { kind := "identifier", start := 12, stop := 13, field := some "name" },
      { kind := "formal_parameters", start := 13, stop := 15, field := some "parameters" }] := by
  simp [SyntaxNode.preorder_eq, SyntaxNode.namedChildren, tree, function]

theorem spansNested : SpansNested ⟨[], tree⟩ := by
  refine (forall_nodes_iff tree (P := fun n => ∀ m ∈ n.namedChildren,
    n.start ≤ m.start ∧ m.stop ≤ n.stop)).2 ?_
  rw [nodes]
  decide +kernel

theorem functionsNonempty : FunctionsNonempty .javaScript tree := by
  rw [FunctionsNonempty, forall_functions_iff, functionSites, List.forall_mem_singleton]
  decide

theorem lines_match_text_sample : SpansNested ⟨[], tree⟩ ∧ tree.stop ≤ source.encode.length ∧
    FunctionsNonempty .javaScript tree ∧
    ∃ rs, functions .javaScript (.ofText source) tree = .ok rs ∧
      ∀ r ∈ FunctionRecord.walkAll rs, ∃ before after, source = before ++ r.sourceText ++ after ∧
        SpansLines source before r.sourceText r.lines := by
  have bounded : tree.stop ≤ source.encode.length := by decide
  obtain ⟨rs, hrs⟩ := exists_functions
  refine ⟨spansNested, bounded, functionsNonempty, rs, hrs, fun r hr => ?_⟩
  obtain ⟨path, s, before, after, -, -, -, ht, -, -, hlines⟩ :=
    lines_match_text .javaScript source tree rs hrs spansNested bounded functionsNonempty r hr
  exact ⟨before, after, ht, hlines⟩

end TwoLines

end Extraction

end FunctionInventory
