import FunctionInventory.Analysis
import FunctionInventory.Proofs.Containment
import FunctionInventory.Proofs.TreeNodes

/-!
# The profiles of the languages

The languages share one extraction and differ in the node kinds that drive it: signatures are
functions, and ambient declarations wrappers, in TypeScript alone. A tree without both has the same
functions in every language. In one with signatures, JavaScript passes each of them over, and what
it holds takes its place.
-/
namespace FunctionInventory

/-- No node of the tree is of the kind; tokens count as well. -/
def SyntaxNode.Lacks (kind : String) (n : SyntaxNode) : Prop :=
  ∀ m : SyntaxNode, m.IsNodeOf n → m.kind ≠ kind

namespace SyntaxNode

variable {kind : String} {n : SyntaxNode}

theorem Lacks.kind_ne (h : n.Lacks kind) : n.kind ≠ kind := h n (.refl n)

theorem Lacks.of_isNodeOf (h : n.Lacks kind) {m : SyntaxNode} (hm : m.IsNodeOf n) : m.Lacks kind :=
  fun k hk => h k (hk.trans hm)

@[simp] theorem lacks_mk {k : String} {start stop : Nat} {named : Bool} {field : Option String}
    {children : List SyntaxNode} : Lacks kind ⟨k, start, stop, named, field, children⟩ ↔
      k ≠ kind ∧ ∀ c ∈ children, c.Lacks kind := by
  constructor
  · intro h
    exact ⟨h.kind_ne, fun c hc => h.of_isNodeOf (.of_mem_children hc)⟩
  · rintro ⟨hk, hchildren⟩ m hm
    rcases isNodeOf_iff.1 hm with rfl | ⟨c, hc, hm⟩
    · exact hk
    · exact hchildren c hc m hm

end SyntaxNode

namespace FunctionRecord

/-- The forest of records without those at the addresses to be `dropped`; what is directly in one
of them takes its place. The records are those from number `i` of the container `c` on. -/
def splice (dropped : List Nat → Bool) (c : Container) (i : Nat) (rs : List FunctionRecord) :
    List FunctionRecord :=
  match rs with
  | [] => []
  | r :: rest =>
    let inner := splice dropped (c ++ [i]) 0 r.inner
    (if dropped (c ++ [i]) then inner else [{ r with inner }]) ++ splice dropped c (i + 1) rest
termination_by totalOf sizeOf rs
decreasing_by
  all_goals
    have := r.totalOf_sizeOf_inner_lt
    simp only [totalOf_cons]
    omega

theorem splice_append (dropped : List Nat → Bool) (c : Container) (i : Nat)
    (rs rs' : List FunctionRecord) : splice dropped c i (rs ++ rs') =
      splice dropped c i rs ++ splice dropped c (i + rs.length) rs' := by
  induction rs generalizing i with
  | nil => simp [splice]
  | cons r rs ih =>
    rw [List.cons_append, splice, splice, ih, List.length_cons, Nat.add_assoc, Nat.add_comm 1]
    simp

end FunctionRecord

namespace Extraction

variable {src : SourceText}

/-- A record depends on a profile only by what it says of the node and of the nodes around it. -/
theorem record_congr {p p' : Profile} {ancestors : List SyntaxNode} {n : SyntaxNode}
    (hnode : p.declarations.contains n.kind = p'.declarations.contains n.kind)
    (haround : ∀ a ∈ ancestors, p.wrappers.contains a.kind = p'.wrappers.contains a.kind) :
    record p src ancestors n = record p' src ancestors n := by
  have hdeclares : declares p ancestors n = declares p' ancestors n := by
    rw [declares, declares, hnode]
  have hwrappers : (ancestors.takeWhile fun a => p.wrappers.contains a.kind) =
      ancestors.takeWhile fun a => p'.wrappers.contains a.kind := by
    clear hdeclares
    induction ancestors with
    | nil => rfl
    | cons a ancestors ih =>
      obtain ⟨ha, hrest⟩ := List.forall_mem_cons.1 haround
      rw [List.takeWhile_cons, List.takeWhile_cons, ha, ih hrest]
  have hstart : extentStart p ancestors n = extentStart p' ancestors n := by
    rw [extentStart, extentStart, hdeclares, hwrappers]
  have hname : functionName p src ancestors n = functionName p' src ancestors n := by
    rw [functionName, functionName, hdeclares]
  rw [record, record, hstart, hname]

/-- No node at the site is of the kind, neither below it nor around it. -/
structure Site.Lacks (kind : String) (s : Site) : Prop where
  node : s.node.Lacks kind
  ancestors : ∀ a ∈ s.ancestors, a.kind ≠ kind

theorem Site.Lacks.children {kind : String} {s : Site} (h : s.Lacks kind) :
    ∀ t ∈ s.children, t.Lacks kind := by
  intro t ht
  obtain ⟨n, hn, rfl⟩ := List.mem_map.1 ht
  exact ⟨h.node.of_isNodeOf (.of_mem_namedChildren hn),
    List.forall_mem_cons.2 ⟨h.node.kind_ne, h.ancestors⟩⟩

theorem Site.Lacks.numbered_children {kind : String} {s : Site} (h : s.Lacks kind) (π : List Nat) :
    ∀ x ∈ Nesting.numbered π 0 s.children, x.2.Lacks kind := by
  rintro ⟨ρ, t⟩ hx
  obtain ⟨j, hj, -⟩ := Nesting.mem_numbered.1 hx
  exact h.children t (List.mem_of_getElem? hj)

/-- The kind of node that is a function in TypeScript only. -/
def signature : String := "function_signature"

/-- The kind of node that is a wrapper in TypeScript only. -/
def ambient : String := "ambient_declaration"

theorem functions_contains_of_ne {kind : String} (h : kind ≠ signature) :
    Profile.javaScript.functions.contains kind = Profile.typeScript.functions.contains kind := by
  simp only [signature] at h
  simp [Profile.javaScript, Profile.typeScript, h]

theorem declarations_contains_of_ne {kind : String} (h : kind ≠ signature) :
    Profile.javaScript.declarations.contains kind =
      Profile.typeScript.declarations.contains kind := by
  simp only [signature] at h
  simp [Profile.javaScript, Profile.typeScript, h]

theorem wrappers_contains_of_ne {kind : String} (h : kind ≠ ambient) :
    Profile.javaScript.wrappers.contains kind = Profile.typeScript.wrappers.contains kind := by
  simp only [ambient] at h
  simp [Profile.javaScript, Profile.typeScript, h]

theorem Site.isFunction_javaScript {s : Site} (h : s.node.kind ≠ signature) :
    s.isFunction .javaScript = s.isFunction .typeScript := by
  rw [Site.isFunction, Site.isFunction, Profile.isFunction, Profile.isFunction,
    functions_contains_of_ne h]

theorem Site.not_isFunction_of_signature {s : Site} (h : s.node.kind = signature) :
    ¬ s.isFunction .javaScript := by
  simp [Site.isFunction, Profile.isFunction, h, signature, Profile.javaScript]

/-- What is no function in TypeScript is none in JavaScript either. -/
theorem Site.not_isFunction_javaScript {s : Site} (h : ¬ s.isFunction .typeScript) :
    ¬ s.isFunction .javaScript := by
  by_cases hkind : s.node.kind = signature
  · exact not_isFunction_of_signature hkind
  · rwa [isFunction_javaScript hkind]

/-- Functions other than signatures have one record in both languages. -/
theorem record_javaScript {s : Site} (h : s.Lacks ambient) (hnode : s.node.kind ≠ signature) :
    record .javaScript src s.ancestors s.node = record .typeScript src s.ancestors s.node :=
  record_congr (declarations_contains_of_ne hnode)
    fun a ha => wrappers_contains_of_ne (h.ancestors a ha)

/-- Without signatures and ambient declarations, the languages have one forest, or fail alike. -/
theorem forest_javaScript_of_lacks (row : List Site) (hambient : ∀ s ∈ row, s.Lacks ambient)
    (hsignature : ∀ s ∈ row, s.Lacks signature) :
    forest .javaScript src row = forest .typeScript src row := by
  fun_induction forest .typeScript src row with
  | case1 => rw [forest]
  | case2 s rest hs ih₁ ih₂ =>
    obtain ⟨hfirst, hrest⟩ := List.forall_mem_cons.1 hambient
    obtain ⟨hfirst', hrest'⟩ := List.forall_mem_cons.1 hsignature
    rw [forest, Site.isFunction_javaScript hfirst'.node.kind_ne, if_pos hs,
      record_javaScript hfirst hfirst'.node.kind_ne, ih₁ hfirst.children hfirst'.children,
      ih₂ hrest hrest']
  | case3 s rest hs ih₁ ih₂ =>
    obtain ⟨hfirst, hrest⟩ := List.forall_mem_cons.1 hambient
    obtain ⟨hfirst', hrest'⟩ := List.forall_mem_cons.1 hsignature
    rw [forest, Site.isFunction_javaScript hfirst'.node.kind_ne, if_neg hs,
      ih₁ hfirst.children hfirst'.children, ih₂ hrest hrest']

/-- Records to be dropped are exactly those of signatures. -/
def DropsSignatures (row : List (List Nat × Site)) (table : List Entry)
    (dropped : List Nat → Bool) : Prop :=
  ∀ e ∈ table, ∀ s, (e.path, s) ∈ functionPlaces .typeScript row →
    dropped e.address = (s.node.kind == signature)

theorem functionPlaces_cons (p : Profile) (x : List Nat × Site) (row : List (List Nat × Site)) :
    functionPlaces p (x :: row) = functionPlaces p [x] ++ functionPlaces p row := by
  simp [functionPlaces]

namespace DropsSignatures

variable {π : List Nat} {s : Site} {row : List (List Nat × Site)} {table table' : List Entry}
  {dropped : List Nat → Bool}

theorem of_function {e : Entry} (h : DropsSignatures ((π, s) :: row) (e :: table ++ table') dropped)
    (hs : s.isFunction .typeScript) (hpath : e.path = π) :
    dropped e.address = (s.node.kind == signature) ∧
      DropsSignatures (Nesting.numbered π 0 s.children) table dropped ∧
      DropsSignatures row table' dropped := by
  have hplaces := functionPlaces_cons .typeScript (π, s) row
  rw [RowTable.functionPlaces_function hs] at hplaces
  refine ⟨h e (by simp) s (by simp [hplaces, hpath]), fun f hf t ht => ?_, fun f hf t ht => ?_⟩
  · exact h f (by simp [hf]) t (by simp [hplaces, ht])
  · exact h f (by simp [hf]) t (by simp [hplaces, ht])

theorem of_other (h : DropsSignatures ((π, s) :: row) (table ++ table') dropped)
    (hs : ¬ s.isFunction .typeScript) :
    DropsSignatures (Nesting.numbered π 0 s.children) table dropped ∧
      DropsSignatures row table' dropped := by
  have hplaces := functionPlaces_cons .typeScript (π, s) row
  rw [RowTable.functionPlaces_other hs] at hplaces
  refine ⟨fun f hf t ht => ?_, fun f hf t ht => ?_⟩
  · exact h f (by simp [hf]) t (by simp [hplaces, ht])
  · exact h f (by simp [hf]) t (by simp [hplaces, ht])

end DropsSignatures

/-- The forest in JavaScript is that in TypeScript without the records of signatures. -/
theorem Tabulates.forest_javaScript {row : List (List Nat × Site)} {c : List Nat} {i : Nat}
    {rs : List FunctionRecord} {table : List Entry}
    (h : Tabulates .typeScript src row c i rs table) (hambient : ∀ x ∈ row, x.2.Lacks ambient)
    {dropped : List Nat → Bool} (hdropped : DropsSignatures row table dropped) :
    forest .javaScript src (row.map Prod.snd) = .ok (FunctionRecord.splice dropped c i rs) := by
  induction h with
  | nil c i =>
    rw [List.map_nil, forest, FunctionRecord.splice]
    rfl
  | @function π s row c i r inner later table table' hs hr _ _ ih ih' =>
    obtain ⟨hfirst, hrest⟩ := List.forall_mem_cons.1 hambient
    obtain ⟨hhere, hbelow, hbehind⟩ := hdropped.of_function hs rfl
    have hinner := ih (hfirst.numbered_children π) hbelow
    have hlater := ih' hrest hbehind
    rw [Nesting.map_snd_numbered] at hinner
    rw [List.map_cons, FunctionRecord.splice, hhere]
    by_cases hkind : s.node.kind = signature
    · rw [forest, if_neg (Site.not_isFunction_of_signature hkind), hinner, hlater]
      simp only [hkind, beq_self_eq_true, if_true]
      rfl
    · rw [forest, Site.isFunction_javaScript hkind, if_pos hs, record_javaScript hfirst hkind, hr,
        hinner, hlater]
      simp only [beq_eq_false_iff_ne.2 hkind, Bool.false_eq_true, if_false]
      rfl
  | @other π s row c i outer later table table' hs _ _ ih ih' =>
    obtain ⟨hfirst, hrest⟩ := List.forall_mem_cons.1 hambient
    obtain ⟨hbelow, hbehind⟩ := hdropped.of_other hs
    have houter := ih (hfirst.numbered_children π) hbelow
    have hlater := ih' hrest hbehind
    rw [Nesting.map_snd_numbered] at houter
    rw [List.map_cons, forest, if_neg (Site.not_isFunction_javaScript hs), houter, hlater,
      FunctionRecord.splice_append]
    rfl

/-- Whether the record at an address is that of a signature, by the table of the tree. -/
def isSignatureAt (root : SyntaxNode) (table : List Entry) (address : List Nat) : Bool :=
  table.any fun e => e.address == address &&
    (siteAt? root e.path).any fun s => s.node.kind == signature

theorem dropsSignatures_isSignatureAt {root : SyntaxNode} {table : List Entry}
    (aligned : table.Pairwise Aligned) :
    DropsSignatures [([], ⟨[], root⟩)] table (isSignatureAt root table) := by
  intro e he s hs
  have hsite := ((mem_functionPlaces_root .typeScript).1 hs).1
  rw [Bool.eq_iff_iff, isSignatureAt, List.any_eq_true]
  constructor
  · rintro ⟨f, hf, hmatch⟩
    obtain ⟨haddress, hkind⟩ := Bool.and_eq_true_iff.1 hmatch
    have hpath := (address_eq_iff_of_aligned aligned hf he).1 (beq_iff_eq.1 haddress)
    rwa [hpath, hsite] at hkind
  · intro hkind
    exact ⟨e, he, by simp [hsite, hkind]⟩

/-- In a tree without ambient declarations, the profiles of the languages differ by signatures
alone. If there are none of these either, a source has the same functions and calls in every
language, or fails in all of them alike. If there are, but no text is malformed, the functions in
JavaScript are those in TypeScript without the records of the signatures, and what was directly in
one of these records takes its place, in order. -/
theorem languages_agree_off_signatures (src : SourceText) (root : SyntaxNode) (hasErrors : Bool)
    (hambient : root.Lacks ambient) :
    (root.Lacks signature → ∀ l l' : Language,
      ParsedSource.functions ⟨l, src, root, hasErrors⟩ =
        ParsedSource.functions ⟨l', src, root, hasErrors⟩ ∧
      ParsedSource.calls ⟨l, src, root, hasErrors⟩ = ParsedSource.calls ⟨l', src, root, hasErrors⟩) ∧
    (Readable .typeScript src root → ∃ rs table,
      ParsedSource.functions ⟨.typeScript, src, root, hasErrors⟩ = .ok rs ∧
      IsTable .typeScript src root rs table ∧
      ParsedSource.functions ⟨.javaScript, src, root, hasErrors⟩ =
        .ok (FunctionRecord.splice (isSignatureAt root table) [] 0 rs)) := by
  have hsite : ∀ s ∈ [(⟨[], root⟩ : Site)], s.Lacks ambient := by
    simpa using ⟨hambient, by simp⟩
  constructor
  · intro hsignature l l'
    have hsite' : ∀ s ∈ [(⟨[], root⟩ : Site)], s.Lacks signature := by
      simpa using ⟨hsignature, by simp⟩
    have hsame : ∀ l : Language, ParsedSource.functions ⟨l, src, root, hasErrors⟩ =
        forest .typeScript src [⟨[], root⟩] := by
      intro l
      rw [ParsedSource.functions, functions_eq_forest]
      cases l with
      | typeScript | tsx => rfl
      | javaScript => exact forest_javaScript_of_lacks _ hsite hsite'
    exact ⟨(hsame l).trans (hsame l').symm, rfl⟩
  · intro hreadable
    obtain ⟨rs, hrs⟩ := hreadable.exists_forest
    obtain ⟨table, htabulates, htable, aligned⟩ := exists_tabulates_root .typeScript src hrs
    refine ⟨rs, table, ?_, htable, ?_⟩
    · exact (functions_eq_forest .typeScript src root).trans hrs
    · refine (functions_eq_forest .javaScript src root).trans ?_
      exact htabulates.forest_javaScript (by simpa using hsite)
        (dropsSignatures_isSignatureAt aligned)

namespace Overload

/-- A signature with an arrow function as the default of its parameter. -/
def source : SourceText := .ofText "function f(x=()=>1);"

def arrow : SyntaxNode := {
  kind := "arrow_function", start := 13, stop := 18, field := some "value", children := [
    { kind := "formal_parameters", start := 13, stop := 15, field := some "parameters" },
    { kind := "number", start := 17, stop := 18, field := some "body" }] }

def parameter : SyntaxNode := {
  kind := "required_parameter", start := 11, stop := 18, children := [
    { kind := "identifier", start := 11, stop := 12, field := some "pattern" }, arrow] }

def parameters : SyntaxNode := {
  kind := "formal_parameters", start := 10, stop := 19, field := some "parameters"
  children := [parameter] }

def declaration : SyntaxNode := {
  kind := "function_signature", start := 0, stop := 20, children := [
    { kind := "identifier", start := 9, stop := 10, field := some "name" }, parameters] }

def tree : SyntaxNode := { kind := "program", start := 0, stop := 20, children := [declaration] }

theorem lacks_ambient : tree.Lacks ambient := by
  simp [tree, declaration, parameters, parameter, arrow, ambient]

theorem functionSites : (Site.nesting.preorder ⟨[], tree⟩).filter (·.isFunction .typeScript) =
    [⟨[tree], declaration⟩, ⟨[parameter, parameters, declaration, tree], arrow⟩] := by
  simp [Nesting.preorder_eq, Site.nesting, Site.children, SyntaxNode.namedChildren, tree,
    declaration, parameters, parameter, arrow, Site.isFunction, Profile.isFunction,
    Profile.typeScript]

theorem calls_declaration : calls source declaration = .ok ∅ := by
  have hcallees : declaration.preorder.filterMap bareCallee = [] := by
    simp [SyntaxNode.preorder_eq, SyntaxNode.namedChildren, declaration, parameters, parameter,
      arrow, bareCallee]
  rw [calls, hcallees]
  rfl

theorem calls_arrow : calls source arrow = .ok ∅ := by
  have hcallees : arrow.preorder.filterMap bareCallee = [] := by
    simp [SyntaxNode.preorder_eq, SyntaxNode.namedChildren, arrow, bareCallee]
  rw [calls, hcallees]
  rfl

theorem record_declaration : record .typeScript source [tree] declaration = .ok {
    name := "f"
    parameters := [{ name := "x" }]
    lines := lineRange source 0 20
    sourceText := "function f(x=()=>1);" } := by
  refine (record_eq_ok_iff ..).2 ⟨?_, ?_, rfl, rfl, ?_, rfl, calls_declaration⟩
  all_goals decide +kernel

theorem record_arrow :
    record .typeScript source [parameter, parameters, declaration, tree] arrow = .ok {
      name := anonymous
      lines := lineRange source 13 18
      sourceText := "()=>1" } := by
  refine (record_eq_ok_iff ..).2 ⟨rfl, rfl, rfl, rfl, ?_, rfl, calls_arrow⟩
  decide +kernel

theorem readable : Readable .typeScript source tree := by
  rw [Readable, forall_functions_iff, functionSites]
  rw [List.forall_mem_cons, List.forall_mem_singleton]
  constructor
  · exact ⟨_, record_declaration⟩
  · exact ⟨_, record_arrow⟩

/-- The signature is a function in TypeScript only; the other tree has no signature. -/
theorem languages_agree_off_signatures_overload :
    (tree.Lacks ambient ∧ Readable .typeScript source tree ∧ ∃ rs table,
      ParsedSource.functions ⟨.typeScript, source, tree, false⟩ = .ok rs ∧
      IsTable .typeScript source tree rs table ∧
      ParsedSource.functions ⟨.javaScript, source, tree, false⟩ =
        .ok (FunctionRecord.splice (isSignatureAt tree table) [] 0 rs)) ∧
    (Sample.tree.Lacks ambient ∧ Sample.tree.Lacks signature ∧
      ParsedSource.functions ⟨.tsx, Sample.source, Sample.tree, false⟩ =
        ParsedSource.functions ⟨.javaScript, Sample.source, Sample.tree, false⟩) := by
  have hambient : Sample.tree.Lacks ambient := by
    simp [Sample.tree, Sample.wrapper, Sample.function, Sample.body, Sample.call, Sample.arguments,
      Sample.arrow, ambient]
  have hsignature : Sample.tree.Lacks signature := by
    simp [Sample.tree, Sample.wrapper, Sample.function, Sample.body, Sample.call, Sample.arguments,
      Sample.arrow, signature]
  exact ⟨⟨lacks_ambient, readable,
      (languages_agree_off_signatures source tree false lacks_ambient).2 readable⟩,
    hambient, hsignature,
    ((languages_agree_off_signatures Sample.source Sample.tree false hambient).1 hsignature
      .tsx .javaScript).1⟩

end Overload

end Extraction

end FunctionInventory
