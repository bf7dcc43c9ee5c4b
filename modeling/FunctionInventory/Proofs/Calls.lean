import FunctionInventory.Proofs.Containment
import FunctionInventory.Proofs.Resolution

/-!
# Calls and containment

The calls of a record are found by going through all that is below its node, apart from
the search for functions. Still the two agree: a call belongs to the nearest function
around it, and the calls of a record are its own and those of the records directly in it.
-/
namespace FunctionInventory

theorem NameSet.mem_foldl_insert {ts : List Text} {s : NameSet} {t : Text} :
    t ∈ (ts.foldl NameSet.insert s).names ↔ t ∈ ts ∨ t ∈ s.names := by
  induction ts generalizing s with
  | nil => simp
  | cons u ts ih =>
    rw [List.foldl_cons, ih]
    simp only [NameSet.insert, NameSet.mem_insertSorted, List.mem_cons]
    tauto

@[simp] theorem NameSet.mem_ofList {ts : List Text} {t : Text} :
    t ∈ (NameSet.ofList ts).names ↔ t ∈ ts := by
  rw [NameSet.ofList, NameSet.mem_foldl_insert]
  exact or_iff_left List.not_mem_nil

@[simp] theorem NameSet.mem_filter {q : Text → Bool} {s : NameSet} {t : Text} :
    t ∈ (s.filter q).names ↔ t ∈ s.names ∧ q t :=
  List.mem_filter

namespace Extraction

variable (p : Profile) (src : SourceText)

/-- The node is a call by a bare name. -/
def CallsAt (n : SyntaxNode) (t : Text) : Prop :=
  ∃ c, bareCallee n = some c ∧ src.sliceStrict c.start c.stop = .ok t

theorem mem_calls {n : SyntaxNode} {names : NameSet} (h : calls src n = .ok names) (t : Text) :
    t ∈ names.names ↔ ∃ m ∈ n.preorder, CallsAt src m t := by
  obtain ⟨ts, hts, h⟩ := bind_eq_ok_iff.1 h
  cases h
  rw [NameSet.mem_ofList, mem_of_mapM_eq_ok hts]
  simp only [List.mem_filterMap, CallsAt]
  constructor
  · rintro ⟨c, ⟨m, hm, hc⟩, ht⟩
    exact ⟨m, hm, c, hc, ht⟩
  · rintro ⟨m, hm, c, hc, ht⟩
    exact ⟨c, ⟨m, hm, hc⟩, ht⟩

/-- The calls below a site, by the paths that lead to them. -/
theorem mem_calls_site {s : Site} {names : NameSet} (h : calls src s.node = .ok names) (t : Text) :
    t ∈ names.names ↔ ∃ path u, Site.nesting.follow? s path = some u ∧ CallsAt src u.node t := by
  rw [mem_calls src h]
  constructor
  · rintro ⟨m, hm, ht⟩
    obtain ⟨path, u, hu, rfl⟩ := mem_preorder_iff_follow?.1 hm
    exact ⟨path, u, hu, ht⟩
  · rintro ⟨path, u, hu, ht⟩
    exact ⟨u.node, mem_preorder_iff_follow?.2 ⟨path, u, hu, rfl⟩, ht⟩

/-- The path enters no function below the site. -/
def EntersNone (s : Site) (path : List Nat) : Prop :=
  ∀ q v, q ≠ [] → q <+: path → Site.nesting.follow? s q = some v → ¬ v.isFunction p

/-- The name is called in the site and in no function below it. -/
def CallsItself (s : Site) (t : Text) : Prop :=
  ∃ path u, Site.nesting.follow? s path = some u ∧ EntersNone p s path ∧ CallsAt src u.node t

/-- The name is called in the tree and in no function of it. -/
def CalledOutside (root : SyntaxNode) (t : Text) : Prop :=
  ¬ Site.isFunction p ⟨[], root⟩ ∧ CallsItself p src ⟨[], root⟩ t

/-- Every call by a bare name in the tree has a well-formed name. -/
def CalleesReadable (root : SyntaxNode) : Prop :=
  ∀ path s c, siteAt? root path = some s → bareCallee s.node = some c →
    ∃ t, src.sliceStrict c.start c.stop = .ok t

/-- A path that enters functions has a first one. -/
theorem entersNone_or_exists_first (s : Site) (path : List Nat) :
    EntersNone p s path ∨ ∃ q r v, path = q ++ r ∧ q ≠ [] ∧ Site.nesting.follow? s q = some v ∧
      v.isFunction p ∧ ∀ q', q' ≠ [] → q' <+: q → q' ≠ q → ∀ v',
        Site.nesting.follow? s q' = some v' → ¬ v'.isFunction p := by
  induction path using List.reverseRecOn with
  | nil =>
    left
    intro q v hq hpre
    exact absurd (List.prefix_nil.1 hpre) hq
  | append_singleton path i ih =>
    rcases ih with hnone | ⟨q, r, v, rfl, hq, hv, hfun, hfirst⟩
    · by_cases hlast : ∃ v, Site.nesting.follow? s (path ++ [i]) = some v ∧ v.isFunction p
      · obtain ⟨v, hv, hfun⟩ := hlast
        refine Or.inr ⟨path ++ [i], [], v, by simp, by simp, hv, hfun, ?_⟩
        intro q' hq' hpre hne v' hv'
        rcases List.prefix_concat_iff.1 hpre with heq | hpre
        · exact absurd heq hne
        · exact hnone q' v' hq' hpre hv'
      · left
        intro q v hq hpre hv hfun
        rcases List.prefix_concat_iff.1 hpre with rfl | hpre
        · exact hlast ⟨v, hv, hfun⟩
        · exact hnone q v hq hpre hv hfun
    · exact Or.inr ⟨q, r ++ [i], v, by simp, hq, hv, hfun, hfirst⟩

section
variable {p src} {root : SyntaxNode} {rs : List FunctionRecord} {table : List Entry}

/-- The calls of an entry are those below its site. -/
theorem IsTable.mem_calls_iff (h : IsTable p src root rs table) {e : Entry} (he : e ∈ table)
    {s : Site} (hs : siteAt? root e.path = some s) (t : Text) :
    t ∈ e.record.calls.names ↔
      ∃ path u, Site.nesting.follow? s path = some u ∧ CallsAt src u.node t := by
  obtain ⟨s', hs', -, hr⟩ := h.exists_site he
  obtain rfl : s' = s := Option.some.inj (hs'.symm.trans hs)
  exact mem_calls_site src ((record_eq_ok_iff p src).1 hr).2.2.2.2.2.2 t

/-- The first function that a path enters below a function is enclosed by that function. -/
theorem encloses_of_first {s v : Site} {π q : List Nat} (hπ : siteAt? root π = some s)
    (hs : s.isFunction p) (hq : q ≠ []) (hv : Site.nesting.follow? s q = some v)
    (hfun : v.isFunction p)
    (hfirst : ∀ q', q' ≠ [] → q' <+: q → q' ≠ q → ∀ v',
      Site.nesting.follow? s q' = some v' → ¬ v'.isFunction p) :
    IsFunctionPath p root (π ++ q) ∧ Encloses p root π (π ++ q) := by
  refine ⟨⟨v, by rw [siteAt?_append hπ, hv], hfun⟩, ⟨s, hπ, hs⟩, List.prefix_append π q,
    by simpa using hq, ?_⟩
  rintro σ ⟨w, hw, hwfun⟩ hσ hne
  rcases List.prefix_or_prefix_of_prefix hσ (List.prefix_append π q) with hle | ⟨q', rfl⟩
  · exact hle
  · rw [siteAt?_append hπ] at hw
    have hq' : q' <+: q := (List.prefix_append_right_inj π).1 hσ
    by_cases hnil : q' = []
    · simp [hnil]
    · exact absurd hwfun (hfirst q' hnil hq' (by rintro rfl; exact hne rfl) w hw)

/-- The calls of a record are its own and those of the records directly in it. -/
theorem IsTable.mem_calls_iff_own_or_inner (h : IsTable p src root rs table) {e : Entry}
    (he : e ∈ table) {s : Site} (hs : siteAt? root e.path = some s) (t : Text) :
    t ∈ e.record.calls.names ↔
      CallsItself p src s t ∨ ∃ r ∈ e.record.inner, t ∈ r.calls.names := by
  obtain ⟨s', hs', hfun, -⟩ := h.exists_site he
  obtain rfl : s' = s := Option.some.inj (hs'.symm.trans hs)
  rw [h.mem_calls_iff he hs]
  constructor
  · rintro ⟨path, u, hu, ht⟩
    rcases entersNone_or_exists_first p s' path with hnone | ⟨q, r, v, rfl, hq, hv, hvfun, hfirst⟩
    · exact Or.inl ⟨path, u, hu, hnone, ht⟩
    · obtain ⟨hpath, henc⟩ := encloses_of_first hs hfun hq hv hvfun hfirst
      obtain ⟨f, hf, hfp⟩ := h.exists_entry hpath
      refine Or.inr ⟨f.record, (h.mem_inner_iff he _).2 ⟨f, hf, rfl, hfp ▸ henc⟩, ?_⟩
      have hfs : siteAt? root f.path = some v := by rw [hfp, siteAt?_append hs, hv]
      rw [Nesting.follow?_append, hv] at hu
      exact (h.mem_calls_iff hf hfs t).2 ⟨r, u, hu, ht⟩
  · rintro (⟨path, u, hu, -, ht⟩ | ⟨r, hr, ht⟩)
    · exact ⟨path, u, hu, ht⟩
    · obtain ⟨f, hf, rfl, henc⟩ := (h.mem_inner_iff he r).1 hr
      obtain ⟨q, hq⟩ := henc.isPrefix
      obtain ⟨v, hv, -, -⟩ := h.exists_site hf
      obtain ⟨path, u, hu, htu⟩ := (h.mem_calls_iff hf hv t).1 ht
      rw [← hq, siteAt?_append hs] at hv
      exact ⟨q ++ path, u, by rw [Nesting.follow?_append, hv]; exact hu, htu⟩

/-- The calls of a tree are those outside its functions and those of the roots. -/
theorem IsTable.mem_scan_iff_outside_or_roots (h : IsTable p src root rs table) {scanned : NameSet}
    (hscan : calls src root = .ok scanned) (t : Text) :
    t ∈ scanned.names ↔ CalledOutside p src root t ∨ ∃ r ∈ rs, t ∈ r.calls.names := by
  have hroot : siteAt? root [] = some ⟨[], root⟩ := rfl
  rw [mem_calls_site src (s := ⟨[], root⟩) hscan]
  constructor
  · rintro ⟨path, u, hu, ht⟩
    have through : ∀ q v, siteAt? root q = some v → v.isFunction p → q <+: path →
        (¬ ∃ π, Encloses p root π q) → ∃ r ∈ rs, t ∈ r.calls.names := by
      rintro q v hv hvfun ⟨r, rfl⟩ hnone
      obtain ⟨f, hf, rfl⟩ := h.exists_entry ⟨v, hv, hvfun⟩
      refine ⟨f.record, (h.mem_roots_iff _).2 ⟨f, hf, rfl, hnone⟩, (h.mem_calls_iff hf hv t).2 ?_⟩
      rw [← siteAt?, siteAt?_append hv] at hu
      exact ⟨r, u, hu, ht⟩
    by_cases hfun : Site.isFunction p ⟨[], root⟩
    · refine Or.inr (through [] _ hroot hfun List.nil_prefix ?_)
      rintro ⟨π, henc⟩
      exact henc.ne (List.prefix_nil.1 henc.isPrefix)
    · rcases entersNone_or_exists_first p ⟨[], root⟩ path with
        hnone | ⟨q, r, v, rfl, hq, hv, hvfun, hfirst⟩
      · exact Or.inl ⟨hfun, path, u, hu, hnone, ht⟩
      · refine Or.inr (through q v hv hvfun (List.prefix_append q r) ?_)
        rintro ⟨π, ⟨w, hw, hwfun⟩, hpre, hne, -⟩
        by_cases hnil : π = []
        · subst hnil
          obtain rfl := Option.some.inj (hroot.symm.trans hw)
          exact hfun hwfun
        · exact hfirst π hnil hpre hne w hw hwfun
  · rintro (⟨-, path, u, hu, -, ht⟩ | ⟨r, hr, ht⟩)
    · exact ⟨path, u, hu, ht⟩
    · obtain ⟨f, hf, rfl, -⟩ := (h.mem_roots_iff r).1 hr
      obtain ⟨v, hv, -, -⟩ := h.exists_site hf
      obtain ⟨path, u, hu, htu⟩ := (h.mem_calls_iff hf hv t).1 ht
      exact ⟨f.path ++ path, u, by rw [← siteAt?, siteAt?_append hv]; exact hu, htu⟩

/-- What is nested in a record calls nothing that the record does not call. -/
def CallsNested (rs : List FunctionRecord) : Prop :=
  ∀ r ∈ FunctionRecord.walkAll rs, ∀ r' ∈ r.inner, r'.calls.names ⊆ r.calls.names

theorem IsTable.callsNested (h : IsTable p src root rs table) : CallsNested rs := by
  intro r hr r' hr' t ht
  obtain ⟨e, he, rfl⟩ := (h.mem_walkAll_iff r).1 hr
  obtain ⟨s, hs, -, -⟩ := h.exists_site he
  exact (h.mem_calls_iff_own_or_inner he hs t).2 (Or.inr ⟨r', hr', ht⟩)

theorem CallsNested.filterAll (h : CallsNested rs) (known : Text → Bool) :
    CallsNested (FunctionRecord.filterAll known rs) := by
  intro r hr r' hr' t ht
  rw [FunctionRecord.walkAll_filterAll] at hr
  obtain ⟨q, hq, rfl⟩ := List.mem_map.1 hr
  rw [FunctionRecord.inner_filterCalls, FunctionRecord.filterAll_eq_map] at hr'
  obtain ⟨q', hq', rfl⟩ := List.mem_map.1 hr'
  rw [FunctionRecord.calls_filterCalls, NameSet.mem_filter] at ht ⊢
  exact ⟨h q hq q' hq' ht.1, ht.2⟩

theorem CallsNested.resolveAll (h : CallsNested rs) {limit : Nat} {known : Text → Bool}
    {resolved : List FunctionRecord}
    (hresolved : FunctionRecord.resolveAll limit known rs = .ok resolved) :
    CallsNested resolved := by
  obtain ⟨-, rfl⟩ := FunctionRecord.resolveAll_eq_ok_iff.1 hresolved
  exact h.filterAll known

end

theorem CalleesReadable.exists_calls {root : SyntaxNode} (h : CalleesReadable src root) :
    ∃ scanned, calls src root = .ok scanned := by
  have hall : ∀ c ∈ root.preorder.filterMap bareCallee,
      ∃ t, src.sliceStrict c.start c.stop = .ok t := by
    intro c hc
    obtain ⟨m, hm, hc⟩ := List.mem_filterMap.1 hc
    have hnode : m ∈ (Site.mk [] root).node.preorder := hm
    obtain ⟨path, s, hs, rfl⟩ := mem_preorder_iff_follow?.1 hnode
    exact h path s c hs hc
  obtain ⟨ts, hts⟩ := exists_mapM_eq_ok hall
  exact ⟨.ofList ts, by rw [calls, hts]; rfl⟩

/-- The search for functions and the search for calls agree. The calls of each record are
those of its node outside of the functions below, and those of the records directly in it;
the calls of the tree are those outside of all functions, and those of the roots. Nested
records call nothing else than the records around them, also after resolving. -/
theorem calls_attributed (root : SyntaxNode) (h : Readable p src root)
    (hcallees : CalleesReadable src root) :
    ∃ rs table scanned, functions p src root = .ok rs ∧ IsTable p src root rs table ∧
      calls src root = .ok scanned ∧
      (∀ e ∈ table, ∃ s, siteAt? root e.path = some s ∧ ∀ t, t ∈ e.record.calls.names ↔
        CallsItself p src s t ∨ ∃ r ∈ e.record.inner, t ∈ r.calls.names) ∧
      (∀ t, t ∈ scanned.names ↔
        CalledOutside p src root t ∨ ∃ r ∈ rs, t ∈ r.calls.names) ∧
      CallsNested rs ∧ ∀ limit known resolved,
        FunctionRecord.resolveAll limit known rs = .ok resolved → CallsNested resolved := by
  obtain ⟨rs, hrs⟩ := h.exists_forest
  obtain ⟨table, htable⟩ := exists_table p src hrs
  obtain ⟨scanned, hscan⟩ := hcallees.exists_calls
  refine ⟨rs, table, scanned, by rw [functions_eq_forest, hrs], htable, hscan, ?_, ?_,
    htable.callsNested, fun _ _ _ => htable.callsNested.resolveAll⟩
  · intro e he
    obtain ⟨s, hs, -, -⟩ := htable.exists_site he
    exact ⟨s, hs, htable.mem_calls_iff_own_or_inner he hs⟩
  · exact htable.mem_scan_iff_outside_or_roots hscan

namespace Sample

theorem calleesReadable : CalleesReadable source tree := by
  intro path s c hs hc
  have hmem : c ∈ (Site.nesting.preorder ⟨[], tree⟩).filterMap fun s => bareCallee s.node :=
    List.mem_filterMap.2 ⟨s, Site.nesting.mem_preorder.2 ⟨path, hs⟩, hc⟩
  have hcallees : ((Site.nesting.preorder ⟨[], tree⟩).filterMap fun s => bareCallee s.node) =
      [{ kind := "identifier", start := 36, stop := 37, field := some "function" }] := by
    simp [Nesting.preorder_eq, Site.nesting, Site.children, SyntaxNode.namedChildren, tree, wrapper,
      function, body, call, arguments, arrow, bareCallee, SyntaxNode.childWithField]
  rw [hcallees, List.mem_singleton] at hmem
  rw [hmem]
  exact ⟨"g", by decide +kernel⟩

theorem calls_attributed_sample : (Readable .javaScript source tree ∧ CalleesReadable source tree) ∧
    ∃ rs table scanned, functions .javaScript source tree = .ok rs ∧
      IsTable .javaScript source tree rs table ∧ calls source tree = .ok scanned ∧
      (∀ e ∈ table, ∃ s, siteAt? tree e.path = some s ∧ ∀ t, t ∈ e.record.calls.names ↔
        CallsItself .javaScript source s t ∨ ∃ r ∈ e.record.inner, t ∈ r.calls.names) ∧
      (∀ t, t ∈ scanned.names ↔
        CalledOutside .javaScript source tree t ∨ ∃ r ∈ rs, t ∈ r.calls.names) ∧
      CallsNested rs ∧ ∀ limit known resolved,
        FunctionRecord.resolveAll limit known rs = .ok resolved → CallsNested resolved :=
  ⟨⟨readable, calleesReadable⟩,
    calls_attributed .javaScript source tree readable calleesReadable⟩

end Sample

end Extraction

end FunctionInventory
