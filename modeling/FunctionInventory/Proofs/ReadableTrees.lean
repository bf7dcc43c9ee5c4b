import FunctionInventory.Proofs.RecordRoundTrip
import FunctionInventory.Proofs.Slices
import FunctionInventory.Proofs.TreeNodes

/-!
# When extraction fails

Where all nodes of a tree start and end between code points of a text, every slice that
extraction makes does so too: names, parameters, types, extents widened over wrappers, and
annotations cut from their first construct to their last. Names of callees are the only texts
that must not hold surrogates, so they are all that extraction can fail on.
-/
namespace FunctionInventory

namespace SyntaxNode

/-- The node starts and ends between code points of the text, and does not end before it
starts. -/
structure OnBoundaries (t : Text) (n : SyntaxNode) : Prop where
  le : n.start ≤ n.stop
  start : t.IsBoundary n.start
  stop : t.IsBoundary n.stop

/-- All nodes of the tree, tokens included, are on boundaries of the text. -/
def Fits (t : Text) (root : SyntaxNode) : Prop :=
  ∀ n : SyntaxNode, n.IsNodeOf root → n.OnBoundaries t

variable {t : Text} {m n : SyntaxNode}

theorem Fits.node (h : n.Fits t) : n.OnBoundaries t := h n (.refl n)

theorem Fits.of_isNodeOf (h : n.Fits t) (hm : m.IsNodeOf n) : m.Fits t :=
  fun k hk => h k (hk.trans hm)

@[simp] theorem fits_mk {kind : String} {start stop : Nat} {named : Bool} {field : Option String}
    {children : List SyntaxNode} : Fits t ⟨kind, start, stop, named, field, children⟩ ↔
      (start ≤ stop ∧ t.IsBoundary start ∧ t.IsBoundary stop) ∧ ∀ c ∈ children, c.Fits t := by
  constructor
  · intro h
    exact ⟨⟨h.node.le, h.node.start, h.node.stop⟩,
      fun c hc => h.of_isNodeOf (.of_mem_children hc)⟩
  · rintro ⟨⟨hle, hstart, hstop⟩, hchildren⟩ m hm
    rcases isNodeOf_iff.1 hm with rfl | ⟨c, hc, hm⟩
    · exact ⟨hle, hstart, hstop⟩
    · exact hchildren c hc m hm

end SyntaxNode

namespace Extraction

open SyntaxNode

variable {t : Text} {n : SyntaxNode}

theorem exists_textOf (h : n.Fits t) : ∃ w, textOf (.ofText t) n = .ok w :=
  SourceText.exists_slice h.node.start h.node.stop

/-- The first and the last construct need not be in order for a text between them. -/
theorem exists_annotationText (h : n.Fits t) : ∃ w, annotationText (.ofText t) n = .ok w := by
  unfold annotationText
  split
  · exact exists_bind_eq_ok (exists_textOf h) fun w => ⟨_, rfl⟩
  · next first rest hc =>
    have hfirst : first ∈ n.constructs := by simp [hc]
    have hlast : (first :: rest).getLast (by simp) ∈ n.constructs := by
      rw [hc]
      exact List.getLast_mem _
    exact SourceText.exists_slice (h.of_isNodeOf (.of_mem_constructs hfirst)).node.start
      (h.of_isNodeOf (.of_mem_constructs hlast)).node.stop

mutual

theorem exists_patternName : (n : SyntaxNode) → n.Fits t →
    ∃ w, patternName (.ofText t) n = .ok w
  | ⟨kind, start, stop, named, field, children⟩, h => by
    have htext := exists_textOf h
    have hleft := exists_leftName children fun m hm => h.of_isNodeOf (.of_mem_children hm)
    rw [patternName]
    split
    · split
      · next inner rest hc =>
        exact exists_textOf (h.of_isNodeOf (.of_mem_constructs (by simp [hc])))
      · exact exists_bind_eq_ok htext fun w => ⟨_, rfl⟩
    · split
      · cases hname : leftName (.ofText t) children with
        | none => exact htext
        | some name => exact hleft name hname
      · exact htext

theorem exists_leftName : (ns : List SyntaxNode) → (∀ n ∈ ns, n.Fits t) →
    ∀ name, leftName (.ofText t) ns = some name → ∃ w, name = .ok w
  | [], _ => by simp [leftName]
  | n :: ns, h => by
    intro name hname
    rw [leftName] at hname
    split at hname
    · cases hname
      exact exists_patternName n (h n List.mem_cons_self)
    · exact exists_leftName ns (fun m hm => h m (List.mem_cons_of_mem n hm)) name hname

end

theorem exists_parameter (h : n.Fits t) : ∃ q, parameter (.ofText t) n = .ok q := by
  have htype : ∀ annotation, ((n.childWithField "type").orElse
      fun _ => n.childOfKind "type_annotation") = some annotation →
      ∃ w, annotationText (.ofText t) annotation = .ok w := by
    intro annotation hc
    rw [Option.orElse_eq_or, Option.or_eq_some_iff] at hc
    apply exists_annotationText
    rcases hc with hc | ⟨-, hc⟩
    · exact h.of_isNodeOf (.of_childWithField hc)
    · exact h.of_isNodeOf (.of_childOfKind hc)
  unfold parameter
  split
  · exact exists_bind_eq_ok (exists_patternName n h) fun name => ⟨_, rfl⟩
  · extract_lets rest
    have hrest : ∀ name, ∃ q, rest name = .ok q := by
      intro name
      dsimp only [rest]
      split
      · next annotation hc => exact exists_bind_eq_ok (htype annotation hc) fun w => ⟨_, rfl⟩
      · exact ⟨_, rfl⟩
    split
    · next pattern hc =>
      exact exists_bind_eq_ok (exists_patternName pattern (h.of_isNodeOf (.of_childWithField hc)))
        hrest
    · exact exists_bind_eq_ok (exists_textOf h) hrest

theorem exists_parameters (h : n.Fits t) : ∃ ps, parameters (.ofText t) n = .ok ps := by
  unfold parameters
  split
  · next list hc =>
    have hlist : list.Fits t := h.of_isNodeOf (.of_childWithField hc)
    exact exists_mapM_eq_ok fun m hm => exists_parameter (hlist.of_isNodeOf (.of_mem_constructs hm))
  · split
    · next single hc =>
      exact exists_bind_eq_ok (exists_textOf (h.of_isNodeOf (.of_childWithField hc)))
        fun w => ⟨_, rfl⟩
    · exact ⟨[], rfl⟩

theorem exists_returnType (h : n.Fits t) : ∃ returns, returnType (.ofText t) n = .ok returns := by
  unfold returnType
  split
  · next annotation hc =>
    exact exists_bind_eq_ok (exists_annotationText (h.of_isNodeOf (.of_childWithField hc)))
      fun w => ⟨_, rfl⟩
  · exact ⟨voidType, rfl⟩

theorem exists_functionName (p : Profile) (ancestors : List SyntaxNode) (h : n.Fits t) :
    ∃ name, functionName p (.ofText t) ancestors n = .ok name := by
  unfold functionName
  split
  · split
    · next name hc => exact exists_textOf (h.of_isNodeOf (.of_childWithField hc))
    · exact ⟨anonymous, rfl⟩
  · exact ⟨anonymous, rfl⟩

variable {root : SyntaxNode} {path : List Nat} {s : Site}

theorem fits_of_siteAt? (h : root.Fits t) (hs : siteAt? root path = some s) :
    s.node.Fits t ∧ ∀ a ∈ s.ancestors, a.Fits t := by
  obtain ⟨hnode, hancestors⟩ := isNodeOf_of_follow? hs
  refine ⟨h.of_isNodeOf hnode, fun a ha => ?_⟩
  have ha' := hancestors a ha
  simp only [List.not_mem_nil, or_false] at ha'
  exact h.of_isNodeOf ha'

/-- An extent starts at a boundary, at whichever of the wrappers it starts. -/
theorem isBoundary_extentStart (p : Profile) (h : root.Fits t) (hs : siteAt? root path = some s) :
    t.IsBoundary (extentStart p s.ancestors s.node) := by
  obtain ⟨hnode, hancestors⟩ := fits_of_siteAt? h hs
  rcases extentStart_cases p s.ancestors s.node with heq | ⟨a, ha, heq⟩
  · rw [heq]
    exact hnode.node.start
  · rw [heq]
    exact (hancestors a ((List.takeWhile_prefix _).subset ha)).node.start

/-- The lines of an extent as they are found, before they are checked. -/
def linesFound (src : SourceText) (start stop : Nat) : Value :=
  let first := src.lineOf start
  let last := if start < stop then src.lineOf (stop - 1 : Nat) else first
  .object [("start", first), ("end", (max last first : Nat))]

/-- Every offset has a line, and the last line found is not before the first one. -/
theorem check_linesFound (bytes : Array UInt8) (start stop : Nat) :
    LineRange.check (linesFound (.ofBytes bytes) start stop) =
      .ok (lineRange (.ofBytes bytes) start stop) := by
  have hfirst : max 1 ((SourceText.ofBytes bytes).lineOf start) =
      (SourceText.ofBytes bytes).lineOf start :=
    Nat.max_eq_right (SourceText.one_le_lineOf bytes start)
  have hdump : (lineRange (.ofBytes bytes) start stop).dump =
      linesFound (.ofBytes bytes) start stop := by
    simp only [lineRange, LineRange.dump, linesFound, hfirst, Nat.max_comm]
  rw [← hdump]
  exact LineRange.check_dump _

/-- A call by a bare name, at the node or at a construct below it, has a callee whose text holds
a surrogate. -/
def CallsSurrogate (t : Text) (n : SyntaxNode) : Prop :=
  ∃ m ∈ n.preorder, ∃ c callee, IsBareCall m c ∧ t.IsBetween c.start c.stop callee ∧
    callee.hasSurrogate

theorem exists_calls_iff (h : n.Fits t) :
    (∃ names, calls (.ofText t) n = .ok names) ↔ ¬ CallsSurrogate t n := by
  constructor
  · rintro ⟨names, hnames⟩ ⟨m, hm, c, callee, hcall, hbetween, hsurrogate⟩
    obtain ⟨ts, hts, -⟩ := bind_eq_ok_iff.1 hnames
    have hc : c ∈ n.preorder.filterMap bareCallee :=
      List.mem_filterMap.2 ⟨m, hm, bareCallee_eq_some_iff.2 hcall⟩
    obtain ⟨w, hw⟩ := exists_ok_of_mem hts hc
    obtain ⟨hslice, hplain⟩ := SourceText.sliceStrict_eq_ok_iff.1 hw
    rw [SourceText.slice_of_isBetween hbetween] at hslice
    cases hslice
    simp [hplain] at hsurrogate
  · intro hnone
    refine exists_bind_eq_ok (exists_mapM_eq_ok fun c hc => ?_) fun names => ⟨_, rfl⟩
    obtain ⟨m, hm, hcallee⟩ := List.mem_filterMap.1 hc
    have hcall := bareCallee_eq_some_iff.1 hcallee
    have hnode : c.IsNodeOf n :=
      (IsNodeOf.of_childWithField hcall.callee).trans (.of_mem_preorder hm)
    have hfits := h c hnode
    obtain ⟨callee, hbetween⟩ := hfits.start.exists_isBetween hfits.stop hfits.le
    have hplain : callee.hasSurrogate = false := by
      by_contra hsurrogate
      exact hnone ⟨m, hm, c, callee, hcall, hbetween, by simpa using hsurrogate⟩
    exact ⟨callee, SourceText.sliceStrict_eq_ok_iff.2
      ⟨SourceText.slice_of_isBetween hbetween, hplain⟩⟩

/-- All that the record of a function holds besides its calls can be read, and the lines found
pass the check of line ranges. -/
structure FieldsReadable (p : Profile) (src : SourceText) (s : Site) : Prop where
  name : ∃ name, functionName p src s.ancestors s.node = .ok name
  parameters : ∃ ps, parameters src s.node = .ok ps
  returnType : ∃ returns, returnType src s.node = .ok returns
  sourceText : ∃ text, src.slice (extentStart p s.ancestors s.node) s.node.stop = .ok text
  lines : LineRange.check (linesFound src (extentStart p s.ancestors s.node) s.node.stop) =
    .ok (lineRange src (extentStart p s.ancestors s.node) s.node.stop)

theorem fieldsReadable_of_siteAt? (p : Profile) (h : root.Fits t) (hs : siteAt? root path = some s) :
    FieldsReadable p (.ofText t) s where
  name := exists_functionName p s.ancestors (fits_of_siteAt? h hs).1
  parameters := exists_parameters (fits_of_siteAt? h hs).1
  returnType := exists_returnType (fits_of_siteAt? h hs).1
  sourceText :=
    SourceText.exists_slice (isBoundary_extentStart p h hs) (fits_of_siteAt? h hs).1.node.stop
  lines := check_linesFound ..

theorem FieldsReadable.exists_record_iff {p : Profile} {src : SourceText}
    (h : FieldsReadable p src s) : (∃ r, record p src s.ancestors s.node = .ok r) ↔
      ∃ names, calls src s.node = .ok names := by
  constructor
  · rintro ⟨r, hr⟩
    obtain ⟨-, -, -, -, -, -, hcalls⟩ := (record_eq_ok_iff p src).1 hr
    exact ⟨_, hcalls⟩
  · rintro ⟨names, hcalls⟩
    obtain ⟨name, hname⟩ := h.name
    obtain ⟨ps, hps⟩ := h.parameters
    obtain ⟨returns, hreturns⟩ := h.returnType
    obtain ⟨text, htext⟩ := h.sourceText
    exact ⟨⟨name, ps, returns, _, text, [], names⟩,
      (record_eq_ok_iff p src).2 ⟨hname, hps, hreturns, rfl, htext, rfl, hcalls⟩⟩

/-- There are functions exactly if every function has a record. -/
theorem exists_functions_iff (p : Profile) (src : SourceText) :
    (∃ rs, functions p src root = .ok rs) ↔ Readable p src root := by
  rw [functions_eq_forest]
  constructor
  · rintro ⟨rs, hrs⟩ path s hs hfun
    obtain ⟨table, htable⟩ := exists_table p src hrs
    obtain ⟨e, he, hpath⟩ := htable.exists_entry ⟨s, hs, hfun⟩
    obtain ⟨u, hu, -, hr⟩ := htable.exists_site he
    rw [hpath, hs] at hu
    cases hu
    exact ⟨_, hr⟩
  · intro h
    exact h.exists_forest

/-- The only way for extraction to fail. For a tree whose nodes are on boundaries of the text,
it fails exactly if a function that the search reaches has a call in it, by a bare name that
holds a surrogate; otherwise there are functions. Nothing else of a function can fail: its
name, its parameters, its types and its text can be read, and its lines are a line range. -/
theorem functions_fail_iff (p : Profile) (t : Text) (root : SyntaxNode) (h : root.Fits t) :
    (functions p (.ofText t) root = .error .malformed ↔
      ∃ path s, siteAt? root path = some s ∧ s.isFunction p ∧ CallsSurrogate t s.node) ∧
    ((∃ rs, functions p (.ofText t) root = .ok rs) ↔
      ¬ ∃ path s, siteAt? root path = some s ∧ s.isFunction p ∧ CallsSurrogate t s.node) ∧
    ∀ path s, siteAt? root path = some s → s.isFunction p → FieldsReadable p (.ofText t) s := by
  have hok : (∃ rs, functions p (.ofText t) root = .ok rs) ↔
      ¬ ∃ path s, siteAt? root path = some s ∧ s.isFunction p ∧ CallsSurrogate t s.node := by
    rw [exists_functions_iff]
    constructor
    · rintro hreadable ⟨path, s, hs, hfun, hcalls⟩
      have hrecord := (fieldsReadable_of_siteAt? p h hs).exists_record_iff.1 (hreadable path s hs hfun)
      exact (exists_calls_iff (fits_of_siteAt? h hs).1).1 hrecord hcalls
    · intro hnone path s hs hfun
      have hcalls : ¬ CallsSurrogate t s.node := fun hcalls => hnone ⟨path, s, hs, hfun, hcalls⟩
      exact (fieldsReadable_of_siteAt? p h hs).exists_record_iff.2
        ((exists_calls_iff (fits_of_siteAt? h hs).1).2 hcalls)
  refine ⟨?_, hok, fun path s hs _ => fieldsReadable_of_siteAt? p h hs⟩
  cases hfunctions : functions p (.ofText t) root with
  | ok rs => simpa using hok.1 ⟨rs, hfunctions⟩
  | error e => simpa [hfunctions] using hok

namespace Sample

/-- A function whose name and whose callee have three bytes each. -/
def declared (name callee : CodePoint) : Text :=
  ("function " : Text) ++ [name] ++ ("()\x7b" : Text) ++ [callee] ++ ("()\x7d" : Text)

def callee : SyntaxNode :=
  { kind := "identifier", start := 15, stop := 18, field := some "function" }

def callNode : SyntaxNode := {
  kind := "call_expression", start := 15, stop := 20, children := [callee,
    { kind := "arguments", start := 18, stop := 20, field := some "arguments" }] }

def declaration : SyntaxNode := {
  kind := "function_declaration", start := 0, stop := 21, children := [
    { kind := "identifier", start := 9, stop := 12, field := some "name" },
    { kind := "formal_parameters", start := 12, stop := 14, field := some "parameters" },
    callNode, { kind := "\x7d", start := 20, stop := 21, named := false }] }

def program : SyntaxNode := { kind := "program", start := 0, stop := 21, children := [declaration] }

theorem fits_program : program.Fits (declared 0x4e2d 0xd800) ∧
    program.Fits (declared 0xd800 0x4e2d) := by
  simp only [program, declaration, callNode, callee, fits_mk, List.forall_mem_cons,
    List.not_mem_nil, false_implies, implies_true, and_true]
  decide +kernel

theorem functionSites_program :
    (Site.nesting.preorder ⟨[], program⟩).filter (·.isFunction .typeScript) =
      [⟨[program], declaration⟩] := by
  simp [Nesting.preorder_eq, Site.nesting, Site.children, SyntaxNode.namedChildren, program,
    declaration, callNode, callee, Site.isFunction, Profile.isFunction, Profile.typeScript]

theorem callees_declaration : declaration.preorder.filterMap bareCallee = [callee] := by
  simp [SyntaxNode.preorder_eq, SyntaxNode.namedChildren, declaration, callNode, callee, bareCallee,
    SyntaxNode.childWithField]

theorem callsSurrogate_declaration : CallsSurrogate (declared 0x4e2d 0xd800) declaration := by
  have hmem : callee ∈ declaration.preorder.filterMap bareCallee := by
    simp [callees_declaration]
  obtain ⟨m, hm, hc⟩ := List.mem_filterMap.1 hmem
  refine ⟨m, hm, callee, [0xd800], bareCallee_eq_some_iff.1 hc, ?_, by decide⟩
  exact ⟨("function " : Text) ++ [0x4e2d] ++ ("()\x7b" : Text), "()\x7d", rfl, by decide, by decide⟩

theorem not_callsSurrogate_declaration :
    ¬ CallsSurrogate (declared 0xd800 0x4e2d) declaration := by
  have hslice : (SourceText.ofText (declared 0xd800 0x4e2d)).sliceStrict callee.start callee.stop =
      .ok [0x4e2d] := by
    decide +kernel
  have hfits : declaration.Fits (declared 0xd800 0x4e2d) :=
    fits_program.2.of_isNodeOf (.of_mem_children (by simp [program]))
  rw [← exists_calls_iff hfits]
  exact ⟨.ofList [[0x4e2d]], by rw [calls, callees_declaration, List.mapM_cons, hslice]; rfl⟩

/-- A surrogate in the name of a callee makes extraction fail; in the name of the function it
does not. -/
theorem functions_fail_iff_surrogates :
    (program.Fits (declared 0x4e2d 0xd800) ∧
      functions .typeScript (.ofText (declared 0x4e2d 0xd800)) program = .error .malformed ∧
      FieldsReadable .typeScript (.ofText (declared 0x4e2d 0xd800)) ⟨[program], declaration⟩) ∧
    program.Fits (declared 0xd800 0x4e2d) ∧
      ∃ rs, functions .typeScript (.ofText (declared 0xd800 0x4e2d)) program = .ok rs := by
  have hsite : siteAt? program [0] = some ⟨[program], declaration⟩ := rfl
  have hfun : Site.isFunction .typeScript ⟨[program], declaration⟩ := by decide
  obtain ⟨hfails, -, hfields⟩ := functions_fail_iff .typeScript _ program fits_program.1
  obtain ⟨-, hreturns, -⟩ := functions_fail_iff .typeScript _ program fits_program.2
  refine ⟨⟨fits_program.1, hfails.2 ⟨[0], _, hsite, hfun, callsSurrogate_declaration⟩,
    hfields [0] _ hsite hfun⟩, fits_program.2, hreturns.2 ?_⟩
  have hnone : ∀ path s, siteAt? program path = some s → s.isFunction .typeScript →
      ¬ CallsSurrogate (declared 0xd800 0x4e2d) s.node := by
    rw [forall_functions_iff, functionSites_program, List.forall_mem_singleton]
    exact not_callsSurrogate_declaration
  rintro ⟨path, s, hs, hfun, hcalls⟩
  exact hnone path s hs hfun hcalls

end Sample

end Extraction

end FunctionInventory
