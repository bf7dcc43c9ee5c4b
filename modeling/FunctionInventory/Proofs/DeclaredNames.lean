import FunctionInventory.Analysis
import FunctionInventory.Proofs.FilteredCalls

/-!
# Calls to declared functions

Resolving is meant to keep the calls to the functions that the sources declare. The index it
goes by is made of the names of records, where `anonymous` stands for no name. So it keeps
exactly the calls to declared names other than this one: a function that is really named so
counts as not declared.
-/
namespace FunctionInventory

namespace Extraction

variable {p : Profile} {src : SourceText}

/-- The site is that of a named declaration, and the text is that of its name. -/
def DeclaresAt (p : Profile) (src : SourceText) (s : Site) (t : Text) : Prop :=
  s.node.named ∧ declares p s.ancestors s.node ∧
    ∃ name, s.node.childWithField "name" = some name ∧ textOf src name = .ok t

/-- A node of the tree, at any depth, declares the name. -/
def DeclaresName (p : Profile) (src : SourceText) (root : SyntaxNode) (t : Text) : Prop :=
  ∃ path s, siteAt? root path = some s ∧ DeclaresAt p src s t

theorem DeclaresAt.functionName_eq {s : Site} {t : Text} (h : DeclaresAt p src s t) :
    functionName p src s.ancestors s.node = .ok t := by
  obtain ⟨-, hdeclares, name, hname, ht⟩ := h
  rw [functionName, if_pos hdeclares, hname]
  exact ht

/-- A function has another name than `anonymous` only where it is declared. -/
theorem declaresAt_of_functionName {s : Site} {t : Text} (hs : s.isFunction p)
    (h : functionName p src s.ancestors s.node = .ok t) (hne : t ≠ anonymous) :
    DeclaresAt p src s t := by
  have hnamed : s.node.named := (Bool.and_eq_true_iff.1 hs).1
  unfold functionName at h
  split at h
  · next hdeclares =>
    split at h
    · next name hname => exact ⟨hnamed, hdeclares, name, hname, h⟩
    · cases h
      exact absurd rfl hne
  · cases h
    exact absurd rfl hne

theorem declarations_subset (l : Language) : l.profile.declarations ⊆ l.profile.functions := by
  cases l <;> decide

theorem exportable_subset (l : Language) :
    ["function_expression", "function", "generator_function"] ⊆ l.profile.functions := by
  cases l <;> decide

/-- What declares a name is a function in the languages of the inventory. -/
theorem isFunction_of_declares (l : Language) {ancestors : List SyntaxNode} {n : SyntaxNode}
    (h : declares l.profile ancestors n) : l.profile.isFunction n := by
  apply List.contains_iff_mem.2
  rcases Bool.or_eq_true_iff.1 h with hkind | hdefault
  · exact declarations_subset l (List.contains_iff_mem.1 hkind)
  · have hkind := (Bool.and_eq_true_iff.1 hdefault).1
    exact exportable_subset l (List.contains_iff_mem.1 hkind)

/-- The names of the records are those that the tree declares, as far as they are not
`anonymous`. -/
theorem exists_record_named_iff {l : Language} {root : SyntaxNode} {rs : List FunctionRecord}
    (h : functions l.profile src root = .ok rs) {t : Text} (hne : t ≠ anonymous) :
    (∃ r ∈ FunctionRecord.walkAll rs, r.name = t) ↔ DeclaresName l.profile src root t := by
  rw [functions_eq_forest] at h
  obtain ⟨table, htable⟩ := exists_table l.profile src h
  constructor
  · rintro ⟨r, hr, rfl⟩
    obtain ⟨e, he, rfl⟩ := (htable.mem_walkAll_iff r).1 hr
    obtain ⟨s, hs, hfun, hrecord⟩ := htable.exists_site he
    have hname := ((record_eq_ok_iff l.profile src).1 hrecord).1
    exact ⟨e.path, s, hs, declaresAt_of_functionName hfun hname hne⟩
  · rintro ⟨path, s, hs, hdeclares⟩
    have hfun : s.isFunction l.profile :=
      Bool.and_eq_true_iff.2 ⟨hdeclares.1, isFunction_of_declares l hdeclares.2.1⟩
    obtain ⟨e, he, rfl⟩ := htable.exists_entry ⟨s, hs, hfun⟩
    obtain ⟨s', hs', -, hrecord⟩ := htable.exists_site he
    obtain rfl : s' = s := Option.some.inj (hs'.symm.trans hs)
    have hname := ((record_eq_ok_iff l.profile src).1 hrecord).1
    rw [hdeclares.functionName_eq] at hname
    exact ⟨e.record, (htable.mem_walkAll_iff _).2 ⟨e, he, rfl⟩, (Except.ok.inj hname).symm⟩

end Extraction

/-- Sources with their trees, and the paths of their files. -/
abbrev ParsedFiles := List (Text × ParsedSource)

namespace ParsedFiles

/-- The functions of each file. -/
def extract (sources : ParsedFiles) : Except TextError (List FileFunctions) :=
  sources.mapM fun s => s.2.functions.map fun functions => { path := s.1, functions }

/-- No text that a record of the trees needs is malformed. -/
def Readable (sources : ParsedFiles) : Prop :=
  ∀ s ∈ sources, Extraction.Readable s.2.language.profile s.2.source s.2.root

theorem Readable.exists_extract {sources : ParsedFiles} (h : sources.Readable) :
    ∃ files, sources.extract = .ok files := by
  apply exists_mapM_eq_ok
  intro s hs
  obtain ⟨rs, hrs⟩ := (h s hs).exists_forest
  rw [← Extraction.functions_eq_forest] at hrs
  exact ⟨_, map_eq_ok_iff.2 ⟨rs, hrs, rfl⟩⟩

/-- One of the trees declares the name. -/
def Declares (sources : ParsedFiles) (t : Text) : Prop :=
  ∃ s ∈ sources, Extraction.DeclaresName s.2.language.profile s.2.source s.2.root t

theorem exists_file_named_iff {sources : ParsedFiles} {files : List FileFunctions}
    (h : sources.extract = .ok files) {t : Text} (hne : t ≠ anonymous) :
    (∃ rs ∈ files.map (·.functions), ∃ r ∈ FunctionRecord.walkAll rs, r.name = t) ↔
      sources.Declares t := by
  have hfiles := mapM_eq_ok_iff.1 h
  clear h
  induction hfiles with
  | nil => simp [Declares]
  | @cons s f sources files hf _ ih =>
    obtain ⟨functions, hfunctions, rfl⟩ := map_eq_ok_iff.1 hf
    have hfirst := Extraction.exists_record_named_iff (l := s.2.language) hfunctions hne
    rw [List.map_cons, List.exists_mem_cons_iff, Declares, List.exists_mem_cons_iff]
    exact or_congr hfirst ih

end ParsedFiles

/-- The second record is the first with exactly the calls to the given names. -/
structure KeepsCalls (names : Text → Prop) (r r' : FunctionRecord) : Prop where
  calls : ∀ t, t ∈ r'.calls.names ↔ t ∈ r.calls.names ∧ names t
  others : { r' with inner := [], calls := ∅ } = { r with inner := [], calls := ∅ }

/-- The files are the same, and at every depth each record has exactly the calls to the
given names. -/
def KeepsCallsOf (names : Text → Prop) (files files' : List FileFunctions) : Prop :=
  List.Forall₂ (fun f f' => f'.path = f.path ∧ f'.errors = f.errors ∧
    List.Forall₂ (KeepsCalls names) (FunctionRecord.walkAll f.functions)
      (FunctionRecord.walkAll f'.functions)) files files'

theorem keepsCalls_filterCalls_iff {names : Text → Prop} {known : Text → Bool}
    {r : FunctionRecord} :
    KeepsCalls names r (r.filterCalls known) ↔ ∀ t ∈ r.calls.names, known t ↔ names t := by
  have hcalls : ∀ t, t ∈ (r.filterCalls known).calls.names ↔ t ∈ r.calls.names ∧ known t := by
    intro t
    rw [FunctionRecord.calls_filterCalls, NameSet.mem_filter]
  constructor
  · intro h t ht
    have hkept := (hcalls t).symm.trans (h.calls t)
    simpa [ht] using hkept
  · intro h
    refine ⟨fun t => (hcalls t).trans (and_congr_right (h t)), ?_⟩
    cases r
    rw [FunctionRecord.filterCalls]

/-- Exactly the calls to the given names are kept if and only if these are, among the called
names, the ones of the index. -/
theorem keepsCallsOf_iff_of_resolveFiles {names : Text → Prop} {limit : Nat}
    {files resolved : List FileFunctions} (h : resolveFiles limit files = .ok resolved) :
    KeepsCallsOf names files resolved ↔
      ∀ f ∈ files, ∀ r ∈ FunctionRecord.walkAll f.functions, ∀ t ∈ r.calls.names,
        (FunctionIndex.ofForests (files.map (·.functions))).declares t ↔ names t := by
  have hdepth : DepthWithin limit files := by
    by_contra hdeep
    rw [resolveFiles_eq_error hdeep] at h
    cases h
  rw [resolveFiles_eq_ok hdepth, Except.ok.injEq] at h
  rw [← h, KeepsCallsOf, List.forall₂_map_right_iff, List.forall₂_same]
  refine forall₂_congr fun f _ => ?_
  rw [FileFunctions.filterCalls, FunctionRecord.walkAll_filterAll, List.forall₂_map_right_iff,
    List.forall₂_same]
  simp only [keepsCalls_filterCalls_iff, true_and]

/-- After extraction, resolving has a result for all files that are not nested deeper than it goes.
In it every record at every depth has exactly those of its calls that go to a name, other than
`anonymous`, which the sources declare. -/
theorem resolve_keeps_declared_calls (sources : ParsedFiles) (h : sources.Readable) :
    ∃ files, sources.extract = .ok files ∧ ∀ limit,
      ((∀ f ∈ files, FunctionRecord.depthAll f.functions ≤ limit) →
        ∃ resolved, resolveFiles limit files = .ok resolved) ∧
      ∀ resolved, resolveFiles limit files = .ok resolved →
        KeepsCallsOf (fun t => sources.Declares t ∧ t ≠ anonymous) files resolved := by
  obtain ⟨files, hfiles⟩ := h.exists_extract
  refine ⟨files, hfiles, fun limit => ⟨fun hdepth => ⟨_, resolveFiles_eq_ok hdepth⟩, ?_⟩⟩
  intro resolved hresolved
  refine (keepsCallsOf_iff_of_resolveFiles hresolved).2 fun f _ r _ t _ => ?_
  rw [FunctionIndex.declares_ofForests]
  exact and_congr_left (ParsedFiles.exists_file_named_iff hfiles)

namespace ParsedFiles.Sample

open Extraction

/-- A function that calls itself. -/
def text (name : String) : Text := ("function " ++ name ++ "()\x7b" ++ name ++ "()\x7d" : String)

def callee (n : Nat) : SyntaxNode :=
  { kind := "identifier", start := n + 12, stop := 2 * n + 12, field := some "function" }

def call (n : Nat) : SyntaxNode := {
  kind := "call_expression", start := n + 12, stop := 2 * n + 14, children := [callee n,
    { kind := "arguments", start := 2 * n + 12, stop := 2 * n + 14, field := some "arguments" }] }

def declaration (n : Nat) : SyntaxNode := {
  kind := "function_declaration", start := 0, stop := 2 * n + 15, children := [
    { kind := "function", start := 0, stop := 8, named := false },
    { kind := "identifier", start := 9, stop := n + 9, field := some "name" },
    { kind := "formal_parameters", start := n + 9, stop := n + 11, field := some "parameters" },
    { kind := "statement_block", start := n + 11, stop := 2 * n + 15, field := some "body"
      children := [{ kind := "expression_statement", start := n + 12, stop := 2 * n + 14
                     children := [call n] }] }] }

/-- The tree of the text, for a name of `n` letters. -/
def tree (n : Nat) : SyntaxNode :=
  { kind := "program", start := 0, stop := 2 * n + 15, children := [declaration n] }

def parsed (name : String) (n : Nat) : ParsedSource :=
  ⟨.javaScript, .ofText (text name), tree n, false⟩

def selfCalling (name : String) (n : Nat) : FunctionRecord where
  name := name
  lines := lineRange (.ofText (text name)) 0 (2 * n + 15)
  sourceText := text name
  calls := .ofList [name]

theorem functionSites_tree (n : Nat) :
    (Site.nesting.preorder ⟨[], tree n⟩).filter (·.isFunction .javaScript) =
      [⟨[tree n], declaration n⟩] := by
  simp [Nesting.preorder_eq, Site.nesting, Site.children, SyntaxNode.namedChildren, tree,
    declaration, call, callee, Site.isFunction, Profile.isFunction, Profile.javaScript]

theorem functions_tree {src : SourceText} {n : Nat} {r : FunctionRecord}
    (h : record .javaScript src [tree n] (declaration n) = .ok r) :
    functions .javaScript src (tree n) = .ok [{ r with inner := [] }] := by
  have hbelow : forest .javaScript src (Site.children ⟨[tree n], declaration n⟩) = .ok [] := by
    simp [forest, Site.children, SyntaxNode.namedChildren, declaration, call, callee,
      Site.isFunction, Profile.isFunction, Profile.javaScript, pure, Except.pure, bind, Except.bind]
  have hchildren : Site.children ⟨[], tree n⟩ = [⟨[tree n], declaration n⟩] := by
    simp [Site.children, SyntaxNode.namedChildren, tree, declaration]
  have htree : ¬ Site.isFunction .javaScript ⟨[], tree n⟩ := by
    simp [Site.isFunction, Profile.isFunction, Profile.javaScript, tree]
  have hfunction : Site.isFunction .javaScript ⟨[tree n], declaration n⟩ := by
    simp [Site.isFunction, Profile.isFunction, Profile.javaScript, declaration]
  have hnone : forest .javaScript src [] = .ok [] := by
    rw [forest]
    rfl
  have hrow : forest .javaScript src [⟨[tree n], declaration n⟩] =
      .ok [{ r with inner := [] }] := by
    rw [forest, if_pos hfunction, h, hbelow, hnone]
    rfl
  rw [functions_eq_forest, forest, if_neg htree, hchildren, hrow, hnone]
  rfl

theorem callees_declaration (n : Nat) :
    (declaration n).preorder.filterMap bareCallee = [callee n] := by
  simp [SyntaxNode.preorder_eq, SyntaxNode.namedChildren, declaration, call, callee, bareCallee,
    SyntaxNode.childWithField]

theorem record_f : record .javaScript (.ofText (text "f")) [tree 1] (declaration 1) =
    .ok (selfCalling "f" 1) := by
  refine (record_eq_ok_iff ..).2 ⟨?_, rfl, rfl, rfl, ?_, rfl, ?_⟩
  · decide +kernel
  · decide +kernel
  · rw [calls, callees_declaration]
    decide +kernel

theorem record_anonymous :
    record .javaScript (.ofText (text "anonymous")) [tree 9] (declaration 9) =
      .ok (selfCalling "anonymous" 9) := by
  refine (record_eq_ok_iff ..).2 ⟨?_, rfl, rfl, rfl, ?_, rfl, ?_⟩
  · decide +kernel
  · decide +kernel
  · rw [calls, callees_declaration]
    decide +kernel

/-- Two files, with a function named `f` and one that is named `anonymous`. -/
def sources : ParsedFiles := [("f.js", parsed "f" 1), ("anonymous.js", parsed "anonymous" 9)]

def files : List FileFunctions := [
  { path := "f.js", functions := [selfCalling "f" 1] },
  { path := "anonymous.js", functions := [selfCalling "anonymous" 9] }]

theorem extract_sources : sources.extract = .ok files := by
  have hf : (parsed "f" 1).functions = .ok [selfCalling "f" 1] := functions_tree record_f
  have hanonymous : (parsed "anonymous" 9).functions = .ok [selfCalling "anonymous" 9] :=
    functions_tree record_anonymous
  rw [extract, mapM_eq_ok_iff]
  refine .cons ?_ (.cons ?_ .nil)
  · rw [hf]
    rfl
  · rw [hanonymous]
    rfl

theorem readable_tree {src : SourceText} {n : Nat} {r : FunctionRecord}
    (h : record .javaScript src [tree n] (declaration n) = .ok r) :
    Extraction.Readable .javaScript src (tree n) := by
  rw [Extraction.Readable, forall_functions_iff, functionSites_tree, List.forall_mem_singleton]
  exact ⟨r, h⟩

theorem readable_sources : sources.Readable := by
  intro s hs
  rcases List.mem_pair.1 hs with rfl | rfl
  · exact readable_tree record_f
  · exact readable_tree record_anonymous

theorem depthWithin_files : DepthWithin 331 files := by
  simp [DepthWithin, files, selfCalling, FunctionRecord.depth_eq]

theorem resolve_keeps_declared_calls_sample : sources.Readable ∧
    ∃ resolved, sources.extract = .ok files ∧ resolveFiles 331 files = .ok resolved ∧
      KeepsCallsOf (fun t => sources.Declares t ∧ t ≠ anonymous) files resolved := by
  obtain ⟨fs, hfs, hlimit⟩ := resolve_keeps_declared_calls sources readable_sources
  obtain rfl : fs = files := Except.ok.inj (hfs.symm.trans extract_sources)
  obtain ⟨hreturns, hkeeps⟩ := hlimit 331
  obtain ⟨resolved, hresolved⟩ := hreturns depthWithin_files
  exact ⟨readable_sources, resolved, hfs, hresolved, hkeeps resolved hresolved⟩

theorem declares_anonymous : sources.Declares anonymous := by
  refine ⟨("anonymous.js", parsed "anonymous" 9), by simp [sources], [0],
    ⟨[tree 9], declaration 9⟩, rfl, rfl, rfl, _, rfl, ?_⟩
  decide +kernel

/-- The call to the function that is named `anonymous` is dropped, although it is declared. -/
theorem declared_call_dropped : sources.extract = .ok files ∧
    ∃ resolved, resolveFiles 331 files = .ok resolved ∧
      ¬ KeepsCallsOf sources.Declares files resolved := by
  refine ⟨extract_sources, _, resolveFiles_eq_ok depthWithin_files, fun hkeeps => ?_⟩
  have hcall : anonymous ∈ (selfCalling "anonymous" 9).calls.names := by decide +kernel
  have hwalk : selfCalling "anonymous" 9 ∈ FunctionRecord.walkAll [selfCalling "anonymous" 9] := by
    rw [FunctionRecord.walkAll_cons]
    exact List.mem_cons_self
  have hfile : { path := "anonymous.js", functions := [selfCalling "anonymous" 9] } ∈ files :=
    List.mem_cons_of_mem _ List.mem_cons_self
  have hindexed := ((keepsCallsOf_iff_of_resolveFiles (resolveFiles_eq_ok depthWithin_files)).1
    hkeeps _ hfile _ hwalk _ hcall).2 declares_anonymous
  exact (FunctionIndex.declares_ofForests.1 hindexed).2 rfl

end ParsedFiles.Sample

end FunctionInventory
