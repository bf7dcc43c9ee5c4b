import FunctionInventory.Language
import FunctionInventory.Proofs.Containment
import FunctionInventory.Proofs.Lines
import FunctionInventory.Proofs.Utf8

/-!
# Extents of nested functions

The extent of a declaration starts at the wrappers right around it. Since a function is
no wrapper, the wrappers of a nested function are inside the function around it, and so
are its extent, its text and its lines.
-/
namespace FunctionInventory.Extraction

variable (p : Profile)

/-- The span of every node below the site is within that of its parent. -/
def SpansNested (s : Site) : Prop :=
  ∀ path t, Site.nesting.follow? s path = some t → ∀ n ∈ t.node.namedChildren,
    t.node.start ≤ n.start ∧ n.stop ≤ t.node.stop

theorem SpansNested.follow {s t : Site} (h : SpansNested s) {path : List Nat}
    (ht : Site.nesting.follow? s path = some t) : SpansNested t := by
  intro rest u hu
  refine h (path ++ rest) u ?_
  rw [Nesting.follow?_append, ht]
  exact hu

theorem exists_child_of_follow? {s t : Site} {i : Nat} {path : List Nat}
    (h : Site.nesting.follow? s (i :: path) = some t) :
    ∃ n ∈ s.node.namedChildren, Site.nesting.follow? s [i] = some ⟨s.node :: s.ancestors, n⟩ ∧
      Site.nesting.follow? ⟨s.node :: s.ancestors, n⟩ path = some t := by
  rw [Nesting.follow?_cons] at h
  obtain ⟨c, hc, ht⟩ := Option.bind_eq_some_iff.1 h
  have hmem : c ∈ s.children := List.mem_of_getElem? hc
  obtain ⟨n, hn, rfl⟩ := List.mem_map.1 hmem
  exact ⟨n, hn, by rw [Nesting.follow?_cons, hc]; rfl, ht⟩

/-- The nodes between a site and one below it start between the starts of the two. -/
theorem SpansNested.ancestors_eq {s t : Site} (h : SpansNested s) {path : List Nat}
    (ht : Site.nesting.follow? s path = some t) :
    (s.node.start ≤ t.node.start ∧ t.node.stop ≤ s.node.stop) ∧
      ∃ between, t.ancestors = between ++ s.ancestors ∧
        ∀ n ∈ between, s.node.start ≤ n.start ∧ n.start ≤ t.node.start := by
  induction path generalizing s with
  | nil =>
    cases ht
    exact ⟨⟨Nat.le_refl _, Nat.le_refl _⟩, [], rfl, by simp⟩
  | cons i path ih =>
    obtain ⟨n, hn, hi, ht⟩ := exists_child_of_follow? ht
    have hspan := h [] s rfl n hn
    obtain ⟨hnt, between, hbetween, hstart⟩ := ih (h.follow hi) ht
    refine ⟨⟨hspan.1.trans hnt.1, hnt.2.trans hspan.2⟩, between ++ [s.node], by simp [hbetween], ?_⟩
    intro m hm
    rcases List.mem_append.1 hm with hm | hm
    · exact ⟨hspan.1.trans (hstart m hm).1, (hstart m hm).2⟩
    · rw [List.mem_singleton.1 hm]
      exact ⟨Nat.le_refl _, hspan.1.trans hnt.1⟩

/-- The extent of a function starts at its node or at a wrapper around it. -/
theorem extentStart_cases (ancestors : List SyntaxNode) (n : SyntaxNode) :
    extentStart p ancestors n = n.start ∨
      ∃ a ∈ ancestors.takeWhile fun a => p.wrappers.contains a.kind,
        extentStart p ancestors n = a.start := by
  unfold extentStart
  split
  · cases h : (ancestors.takeWhile fun a => p.wrappers.contains a.kind).getLast? with
    | none => exact Or.inl rfl
    | some a => exact Or.inr ⟨a, List.mem_of_getLast? h, rfl⟩
  · exact Or.inl rfl

/-- The extent of a function does not start behind its node. -/
theorem extentStart_le_start {root : SyntaxNode} {s : Site} {path : List Nat}
    (h : SpansNested ⟨[], root⟩) (hs : siteAt? root path = some s) :
    extentStart p s.ancestors s.node ≤ s.node.start := by
  obtain ⟨-, between, hbetween, hstart⟩ := h.ancestors_eq hs
  rcases extentStart_cases p s.ancestors s.node with heq | ⟨a, ha, heq⟩
  · rw [heq]
  · have hmem : a ∈ between := by
      have := (List.takeWhile_prefix _).subset ha
      simpa [hbetween] using this
    rw [heq]
    exact (hstart a hmem).2

theorem mem_of_mem_takeWhile_append {q : SyntaxNode → Bool} {xs ys : List SyntaxNode}
    {n a : SyntaxNode} (hn : ¬ q n) (ha : a ∈ (xs ++ n :: ys).takeWhile q) : a ∈ xs := by
  rw [List.takeWhile_append] at ha
  split at ha
  · simpa [hn] using ha
  · exact (List.takeWhile_prefix q).subset ha

/-- The extent of a function does not start before the function around it. -/
theorem start_le_extentStart {s t : Site} {path : List Nat}
    (hs : ¬ p.wrappers.contains s.node.kind) (h : SpansNested s) (hpath : path ≠ [])
    (ht : Site.nesting.follow? s path = some t) :
    s.node.start ≤ extentStart p t.ancestors t.node := by
  cases path with
  | nil => contradiction
  | cons i path =>
    obtain ⟨n, hn, hi, ht⟩ := exists_child_of_follow? ht
    have hspan := h [] s rfl n hn
    obtain ⟨hnt, between, hbetween, hstart⟩ := (h.follow hi).ancestors_eq ht
    rcases extentStart_cases p t.ancestors t.node with heq | ⟨a, ha, heq⟩
    · rw [heq]
      exact hspan.1.trans hnt.1
    · rw [hbetween] at ha
      rw [heq]
      exact hspan.1.trans (hstart a (mem_of_mem_takeWhile_append hs ha)).1

/-- In both profiles, functions are no wrappers. -/
theorem not_wrapper_of_isFunction (l : Language) {s : Site} (h : s.isFunction l.profile) :
    ¬ l.profile.wrappers.contains s.node.kind := by
  have hkind : s.node.kind ∈ l.profile.functions := by
    simp only [Site.isFunction, Profile.isFunction, Bool.and_eq_true, List.contains_iff_mem] at h
    exact h.2
  have hapart : ∀ kind ∈ l.profile.functions, ¬ l.profile.wrappers.contains kind := by
    cases l <;> decide
  exact hapart s.node.kind hkind

/-- The second site has its extent within that of the first. -/
def ExtentWithin (s t : Site) : Prop :=
  extentStart p s.ancestors s.node ≤ extentStart p t.ancestors t.node ∧
    extentStart p t.ancestors t.node < t.node.stop ∧ t.node.stop ≤ s.node.stop

/-- The lines of an extent are among those of an extent around it. -/
theorem lineRange_within (bytes : Array UInt8) {start stop start' stop' : Nat}
    (hstart : start ≤ start') (hlt : start' < stop') (hstop : stop' ≤ stop) :
    (lineRange (.ofBytes bytes) start stop).start ≤
        (lineRange (.ofBytes bytes) start' stop').start ∧
      (lineRange (.ofBytes bytes) start' stop').stop ≤
        (lineRange (.ofBytes bytes) start stop).stop := by
  have hfirst : (SourceText.ofBytes bytes).lineOf start ≤
      (SourceText.ofBytes bytes).lineOf start' :=
    SourceText.lineOf_mono bytes (by omega)
  have hinner : (SourceText.ofBytes bytes).lineOf start' ≤
      (SourceText.ofBytes bytes).lineOf ((stop' - 1 : Nat) : Int) :=
    SourceText.lineOf_mono bytes (by omega)
  have hlast : (SourceText.ofBytes bytes).lineOf ((stop' - 1 : Nat) : Int) ≤
      (SourceText.ofBytes bytes).lineOf ((stop - 1 : Nat) : Int) :=
    SourceText.lineOf_mono bytes (by omega)
  have houter : start < stop := by omega
  simp only [lineRange, if_pos hlt, if_pos houter]
  omega

/-- The first line of an extent is that of its start. -/
theorem lineRange_start (bytes : Array UInt8) (start stop : Nat) :
    (lineRange (.ofBytes bytes) start stop).start = (SourceText.ofBytes bytes).lineOf start := by
  have := SourceText.one_le_lineOf bytes start
  simp only [lineRange]
  omega

/-- No span of a function is empty. -/
def FunctionsNonempty (root : SyntaxNode) : Prop :=
  ∀ path s, siteAt? root path = some s → s.isFunction p → s.node.start < s.node.stop

section
variable {p} {src : SourceText} {root : SyntaxNode} {rs : List FunctionRecord} {table : List Entry}

/-- The extent of an enclosed function is within that of the function around it. -/
theorem Encloses.extentWithin {π ρ : List Nat} (h : Encloses p root π ρ) {s t : Site}
    (hs : siteAt? root π = some s) (ht : siteAt? root ρ = some t)
    (spans : SpansNested ⟨[], root⟩) (hwrapper : ¬ p.wrappers.contains s.node.kind)
    (hne : t.node.start < t.node.stop) : ExtentWithin p s t := by
  obtain ⟨q, rfl⟩ := h.isPrefix
  have hq : q ≠ [] := by
    rintro rfl
    exact h.ne (by simp)
  have hnested := spans.follow hs
  have hfollow : Site.nesting.follow? s q = some t := by rwa [siteAt?_append hs] at ht
  have hspan := (hnested.ancestors_eq hfollow).1
  have hstart := extentStart_le_start p spans hs
  have hstart' := extentStart_le_start p spans ht
  have hbelow := start_le_extentStart p hwrapper hnested hq hfollow
  exact ⟨hstart.trans hbelow, by omega, hspan.2⟩

end

/-- In the inventory of a tree with nested spans, whatever is directly in a record has its
extent, its text and its lines within those of the record. -/
theorem extents_nested (l : Language) (bytes : Array UInt8) (root : SyntaxNode)
    (h : Readable l.profile (.ofBytes bytes) root) (spans : SpansNested ⟨[], root⟩)
    (nonempty : FunctionsNonempty l.profile root) :
    ∃ rs table, functions l.profile (.ofBytes bytes) root = .ok rs ∧
      IsTable l.profile (.ofBytes bytes) root rs table ∧
      ∀ e ∈ table, ∃ s, siteAt? root e.path = some s ∧
        e.record.lines.start =
          (SourceText.ofBytes bytes).lineOf (extentStart l.profile s.ancestors s.node) ∧
        1 ≤ e.record.lines.start ∧
        ∀ r ∈ e.record.inner, ∃ f ∈ table, f.record = r ∧
          Encloses l.profile root e.path f.path ∧
          ∃ t, siteAt? root f.path = some t ∧ ExtentWithin l.profile s t ∧
            r.sourceText <:+: e.record.sourceText ∧ e.record.lines.start ≤ r.lines.start ∧
            r.lines.start ≤ r.lines.stop ∧ r.lines.stop ≤ e.record.lines.stop := by
  obtain ⟨rs, hrs⟩ := h.exists_forest
  obtain ⟨table, htable⟩ := exists_table l.profile _ hrs
  refine ⟨rs, table, by rw [functions_eq_forest, hrs], htable, ?_⟩
  intro e he
  obtain ⟨s, hs, hfun, hr⟩ := htable.exists_site he
  obtain ⟨-, -, -, hlines, htext, -⟩ := (record_eq_ok_iff _ _).1 hr
  refine ⟨s, hs, ?_, e.record.lines.pos, ?_⟩
  · rw [hlines, lineRange_start]
  · intro r hmem
    obtain ⟨f, hf, rfl, henc⟩ := (htable.mem_inner_iff he r).1 hmem
    obtain ⟨t, ht, hfun', hr'⟩ := htable.exists_site hf
    obtain ⟨-, -, -, hlines', htext', -⟩ := (record_eq_ok_iff _ _).1 hr'
    have hwithin := henc.extentWithin hs ht spans (not_wrapper_of_isFunction l hfun)
      (nonempty f.path t ht hfun')
    have hrange := lineRange_within bytes hwithin.1 hwithin.2.1 hwithin.2.2
    rw [← hlines, ← hlines'] at hrange
    exact ⟨f, hf, rfl, henc, t, ht, hwithin, SourceText.isInfix_of_slice hwithin.1
      (Nat.le_of_lt hwithin.2.1) hwithin.2.2 htext htext', hrange.1, f.record.lines.le, hrange.2⟩

namespace Sample

theorem nodes : tree.preorder =
    [tree, wrapper, function,
      { kind := "identifier", start := 24, stop := 25, field := some "name" },
      { kind := "formal_parameters", start := 25, stop := 28, field := some "parameters"
        children := [{ kind := "identifier", start := 26, stop := 27 }] },
      { kind := "identifier", start := 26, stop := 27 }, body, call,
      { kind := "identifier", start := 36, stop := 37, field := some "function" }, arguments, arrow,
      { kind := "formal_parameters", start := 38, stop := 40, field := some "parameters" },
      { kind := "identifier", start := 42, stop := 43, field := some "body" }] := by
  simp [SyntaxNode.preorder_eq, SyntaxNode.namedChildren, tree, wrapper, function, body, call,
    arguments, arrow]

theorem spansNested : SpansNested ⟨[], tree⟩ := by
  refine (forall_nodes_iff tree (P := fun n => ∀ m ∈ n.namedChildren,
    n.start ≤ m.start ∧ m.stop ≤ n.stop)).2 ?_
  rw [nodes]
  decide +kernel

theorem functionsNonempty : FunctionsNonempty .javaScript tree := by
  rw [FunctionsNonempty, forall_functions_iff, functionSites]
  rw [List.forall_mem_cons, List.forall_mem_singleton]
  decide

theorem extents_nested_sample :
    (Readable .javaScript source tree ∧ SpansNested ⟨[], tree⟩ ∧
      FunctionsNonempty .javaScript tree) ∧
    ∃ rs table, functions .javaScript source tree = .ok rs ∧
      IsTable .javaScript source tree rs table ∧
      ∀ e ∈ table, ∃ s, siteAt? tree e.path = some s ∧
        e.record.lines.start = source.lineOf (extentStart .javaScript s.ancestors s.node) ∧
        1 ≤ e.record.lines.start ∧
        ∀ r ∈ e.record.inner, ∃ f ∈ table, f.record = r ∧
          Encloses .javaScript tree e.path f.path ∧
          ∃ t, siteAt? tree f.path = some t ∧ ExtentWithin .javaScript s t ∧
            r.sourceText <:+: e.record.sourceText ∧ e.record.lines.start ≤ r.lines.start ∧
            r.lines.start ≤ r.lines.stop ∧ r.lines.stop ≤ e.record.lines.stop :=
  ⟨⟨readable, spansNested, functionsNonempty⟩,
    extents_nested .javaScript _ tree readable spansNested functionsNonempty⟩

end Sample

end FunctionInventory.Extraction
