import FunctionInventory.Extraction
import FunctionInventory.Proofs.Outcomes
import FunctionInventory.Proofs.Places

/-!
# The containment forest

Extraction adds records to containers that grow while a stack of visits shrinks. The
outcome is the containment forest, which is defined here by recursion: a function holds
the functions below it that no other function separates from it.
-/
namespace FunctionInventory

namespace FunctionRecord

/-- Puts records at the end of a container, one after the other. -/
def addAllTo (rs : List FunctionRecord) (c : Container) (forest : List FunctionRecord) :
    List FunctionRecord :=
  rs.foldl (fun forest r => r.addTo c forest) forest

theorem addAllTo_nil_container (rs forest : List FunctionRecord) :
    addAllTo rs [] forest = forest ++ rs := by
  induction rs generalizing forest with
  | nil => simp [addAllTo]
  | cons r rs ih =>
    have h := ih (forest ++ [r])
    simp only [addAllTo, List.foldl_cons, addTo] at *
    simpa using h

theorem addAllTo_append (rs rs' : List FunctionRecord) (c : Container)
    (forest : List FunctionRecord) :
    addAllTo (rs ++ rs') c forest = addAllTo rs' c (addAllTo rs c forest) := by
  simp [addAllTo]

theorem addAllTo_cons_container (rs : List FunctionRecord) (i : Nat) (c : Container)
    (forest : List FunctionRecord) :
    addAllTo rs (i :: c) forest =
      forest.modify i fun s => { s with inner := addAllTo rs c s.inner } := by
  induction rs generalizing forest with
  | nil =>
    have hid : (fun s : FunctionRecord => { s with inner := addAllTo [] c s.inner }) = id := by
      funext s
      cases s
      rfl
    rw [hid, List.modify_id]
    rfl
  | cons r rs ih =>
    have h := ih (r.addTo (i :: c) forest)
    simp only [addAllTo, List.foldl_cons] at *
    rw [h, addTo, List.modify_modify_eq]
    rfl

theorem modify_congr {rs : List FunctionRecord} {i : Nat} {f g : FunctionRecord → FunctionRecord}
    (h : ∀ s, rs[i]? = some s → f s = g s) : rs.modify i f = rs.modify i g := by
  apply List.ext_getElem?
  intro j
  by_cases hij : i = j
  · subst j
    rw [List.getElem?_modify_eq, List.getElem?_modify_eq]
    cases hi : rs[i]? with
    | none => rfl
    | some s => simp [h s hi]
  · rw [List.getElem?_modify_ne f rs hij, List.getElem?_modify_ne g rs hij]

/-- Records added to the container of a record that was just added are nested in it. -/
theorem addAllTo_addTo {r : FunctionRecord} (hr : r.inner = []) (rs : List FunctionRecord)
    (c : Container) (forest : List FunctionRecord) :
    addAllTo rs (c ++ [countIn c forest]) (r.addTo c forest) =
      addTo { r with inner := rs } c forest := by
  induction c generalizing forest with
  | nil =>
    rw [List.nil_append, addAllTo_cons_container, addTo, countIn, addTo]
    rw [List.modify_eq_take_cons_drop (by simp)]
    simp [addAllTo_nil_container, hr]
  | cons i c ih =>
    rw [List.cons_append, addAllTo_cons_container, addTo, List.modify_modify_eq, addTo]
    apply modify_congr
    intro s hs
    have hcount : countIn (i :: c) forest = countIn c s.inner := by simp [countIn, hs]
    simp only [Function.comp_apply, hcount, ih s.inner]

end FunctionRecord

namespace Extraction

variable (p : Profile) (src : SourceText)

/-- What a record is made of. -/
theorem record_eq_ok_iff {ancestors : List SyntaxNode} {n : SyntaxNode} {r : FunctionRecord} :
    record p src ancestors n = .ok r ↔
      functionName p src ancestors n = .ok r.name ∧ parameters src n = .ok r.parameters ∧
      returnType src n = .ok r.returnType ∧
      r.lines = lineRange src (extentStart p ancestors n) n.stop ∧
      src.slice (extentStart p ancestors n) n.stop = .ok r.sourceText ∧ r.inner = [] ∧
      calls src n = .ok r.calls := by
  simp only [record, bind_eq_ok_iff]
  constructor
  · rintro ⟨name, hname, ps, hps, returns, hreturns, text, htext, names, hnames, h⟩
    cases h
    exact ⟨hname, hps, hreturns, rfl, htext, rfl, hnames⟩
  · rintro ⟨hname, hps, hreturns, hlines, htext, hinner, hcalls⟩
    refine ⟨_, hname, _, hps, _, hreturns, _, htext, _, hcalls, ?_⟩
    cases r
    simp_all [pure, Except.pure]

/-- The containment forest of a row of sites. A function holds the forest of the sites
right below it; what stands below another site is passed on. -/
def forest (row : List Site) : Result (List FunctionRecord) :=
  match row with
  | [] => return []
  | s :: rest =>
    if s.isFunction p then do
      let r ← record p src s.ancestors s.node
      let inner ← forest s.children
      return { r with inner } :: (← forest rest)
    else do
      let outer ← forest s.children
      return outer ++ (← forest rest)
termination_by totalOf (fun s => sizeOf s.node) row
decreasing_by
  all_goals
    have h := s.totalOf_sizeOf_children_lt
    simp only [totalOf_cons]
    omega

/-- The visits of a row add its forest to their container before the rest of the stack
is touched. -/
theorem visitAll_allIn (row : List Site) (c : FunctionRecord.Container) (rest : List Visit)
    (found : List FunctionRecord) :
    visitAll p src (Visit.allIn c row ++ rest) found =
      forest p src row >>= fun rs => visitAll p src rest (FunctionRecord.addAllTo rs c found) := by
  fun_induction forest p src row generalizing c rest found with
  | case1 => rfl
  | case2 s row hs ih₁ ih₂ =>
    rw [Visit.allIn, List.map_cons, List.cons_append, visitAll, if_pos hs]
    cases hr : record p src s.ancestors s.node with
    | error e => rfl
    | ok r =>
      have hinner : r.inner = [] := ((record_eq_ok_iff p src).1 hr).2.2.2.2.2.1
      change visitAll p src (Visit.allIn (c ++ [FunctionRecord.countIn c found]) s.children ++
        (Visit.allIn c row ++ rest)) (r.addTo c found) = _
      rw [ih₁]
      cases hf : forest p src s.children with
      | error e => rfl
      | ok inner =>
        change visitAll p src (Visit.allIn c row ++ rest)
          (FunctionRecord.addAllTo inner (c ++ [FunctionRecord.countIn c found])
            (r.addTo c found)) = _
        rw [FunctionRecord.addAllTo_addTo hinner, ih₂]
        cases forest p src row <;> rfl
  | case3 s row hs ih₁ ih₂ =>
    rw [Visit.allIn, List.map_cons, List.cons_append, visitAll, if_neg hs]
    change visitAll p src (Visit.allIn c s.children ++ (Visit.allIn c row ++ rest)) found = _
    rw [ih₁]
    cases hf : forest p src s.children with
    | error e => rfl
    | ok outer =>
      change visitAll p src (Visit.allIn c row ++ rest) (FunctionRecord.addAllTo outer c found) = _
      rw [ih₂]
      cases hf' : forest p src row with
      | error e => rfl
      | ok later =>
        change visitAll p src rest (FunctionRecord.addAllTo later c
          (FunctionRecord.addAllTo outer c found)) = _
        rw [← FunctionRecord.addAllTo_append]
        rfl

/-- The stack and the growing containers give the containment forest. -/
theorem functions_eq_forest (root : SyntaxNode) :
    functions p src root = forest p src [⟨[], root⟩] := by
  have h := visitAll_allIn p src [⟨[], root⟩] [] [] []
  change functions p src root = _ at h
  rw [h]
  cases forest p src [⟨[], root⟩] with
  | error e => rfl
  | ok rs =>
    change visitAll p src [] (FunctionRecord.addAllTo rs [] []) = _
    rw [visitAll, FunctionRecord.addAllTo_nil_container]
    rfl

/-- A site holds the sites of the constructs right below. -/
def Site.nesting : Nesting Site where
  children := Site.children
  shrinks := ⟨fun s => sizeOf s.node, Site.totalOf_sizeOf_children_lt⟩

/-- The site that a path leads to, by numbers of named children from the root on. -/
def siteAt? (root : SyntaxNode) (path : List Nat) : Option Site :=
  Site.nesting.follow? ⟨[], root⟩ path

theorem follow?_node (s : Site) (path : List Nat) :
    (Site.nesting.follow? s path).map Site.node = SyntaxNode.nesting.follow? s.node path := by
  induction path generalizing s with
  | nil => rfl
  | cons i path ih =>
    rw [Nesting.follow?_cons, Nesting.follow?_cons]
    simp only [Site.nesting, Site.children, SyntaxNode.nesting, List.getElem?_map]
    cases s.node.namedChildren[i]? with
    | none => rfl
    | some n => exact ih ⟨s.node :: s.ancestors, n⟩

/-- The nodes below a site are those that paths lead to. -/
theorem mem_preorder_iff_follow? {s : Site} {n : SyntaxNode} :
    n ∈ s.node.preorder ↔ ∃ path t, Site.nesting.follow? s path = some t ∧ t.node = n := by
  rw [SyntaxNode.preorder, SyntaxNode.nesting.mem_preorder]
  simp only [← follow?_node, Option.map_eq_some_iff]

/-- What holds of the nodes below the root holds wherever a path leads to one. -/
theorem forall_nodes_iff (root : SyntaxNode) {P : SyntaxNode → Prop} :
    (∀ path s, siteAt? root path = some s → P s.node) ↔ ∀ n ∈ root.preorder, P n := by
  constructor
  · intro h n hn
    have hnode : n ∈ (Site.mk [] root).node.preorder := hn
    obtain ⟨path, s, hs, rfl⟩ := mem_preorder_iff_follow?.1 hnode
    exact h path s hs
  · intro h path s hs
    exact h s.node (mem_preorder_iff_follow?.2 ⟨path, s, hs, rfl⟩)

theorem siteAt?_append {root : SyntaxNode} {s : Site} {path : List Nat}
    (hs : siteAt? root path = some s) (rest : List Nat) :
    siteAt? root (path ++ rest) = Site.nesting.follow? s rest := by
  rw [siteAt?, Nesting.follow?_append]
  rw [siteAt?] at hs
  rw [hs]
  rfl

/-- What holds of the function sites of the inventory holds wherever a path leads to one. -/
theorem forall_functions_iff {root : SyntaxNode} {P : Site → Prop} :
    (∀ path s, siteAt? root path = some s → s.isFunction p → P s) ↔
      ∀ s ∈ (Site.nesting.preorder ⟨[], root⟩).filter (·.isFunction p), P s := by
  simp only [List.mem_filter, Site.nesting.mem_preorder]
  constructor
  · rintro h s ⟨⟨path, hpath⟩, hfun⟩
    exact h path s hpath hfun
  · intro h path s hpath hfun
    exact h s ⟨⟨path, hpath⟩, hfun⟩

/-- The path leads to a node that has a record of its own. -/
def IsFunctionPath (root : SyntaxNode) (path : List Nat) : Prop :=
  ∃ s, siteAt? root path = some s ∧ s.isFunction p

/-- No text that a record of the tree needs is malformed. -/
def Readable (root : SyntaxNode) : Prop :=
  ∀ path s, siteAt? root path = some s → s.isFunction p →
    ∃ r, record p src s.ancestors s.node = .ok r

/-- A forest is there as soon as every function in the row has a record. -/
theorem exists_forest (row : List Site)
    (h : ∀ s ∈ row.flatMap Site.nesting.preorder, s.isFunction p →
      ∃ r, record p src s.ancestors s.node = .ok r) :
    ∃ rs, forest p src row = .ok rs := by
  fun_induction forest p src row with
  | case1 => exact ⟨[], rfl⟩
  | case2 s rest hs ih₁ ih₂ =>
    rw [List.flatMap_cons, Site.nesting.preorder_eq] at h
    obtain ⟨r, hr⟩ := h s (by simp) hs
    obtain ⟨inner, hinner⟩ := ih₁ fun t ht => h t (by
      rw [List.cons_append]
      exact List.mem_cons_of_mem _ (List.mem_append_left _ ht))
    obtain ⟨later, hlater⟩ := ih₂ fun t ht => h t (List.mem_append_right _ ht)
    exact ⟨{ r with inner } :: later, by rw [hr, hinner, hlater]; rfl⟩
  | case3 s rest hs ih₁ ih₂ =>
    rw [List.flatMap_cons, Site.nesting.preorder_eq] at h
    obtain ⟨outer, houter⟩ := ih₁ fun t ht => h t (by
      rw [List.cons_append]
      exact List.mem_cons_of_mem _ (List.mem_append_left _ ht))
    obtain ⟨later, hlater⟩ := ih₂ fun t ht => h t (List.mem_append_right _ ht)
    exact ⟨outer ++ later, by rw [houter, hlater]; rfl⟩

/-- Functions are nested at most as deep as there are function sites. -/
theorem depthAll_forest_le {row : List Site} {rs : List FunctionRecord}
    (h : forest p src row = .ok rs) :
    FunctionRecord.depthAll rs ≤
      (row.flatMap Site.nesting.preorder).countP (Site.isFunction p) := by
  fun_induction forest p src row generalizing rs with
  | case1 =>
    cases h
    simp
  | case2 s rest hs ih₁ ih₂ =>
    obtain ⟨r, -, h⟩ := bind_eq_ok_iff.1 h
    obtain ⟨inner, hinner, h⟩ := bind_eq_ok_iff.1 h
    obtain ⟨later, hlater, h⟩ := bind_eq_ok_iff.1 h
    cases h
    have hbelow := ih₁ hinner
    have hbeside := ih₂ hlater
    rw [List.flatMap_cons, Site.nesting.preorder_eq, List.countP_append, List.countP_cons_of_pos hs,
      FunctionRecord.depthAll_cons, FunctionRecord.depth_eq]
    change max (FunctionRecord.depthAll inner + 1) _ ≤ _
    change FunctionRecord.depthAll inner ≤ ((Site.nesting.children s).flatMap _).countP _ at hbelow
    omega
  | case3 s rest hs ih₁ ih₂ =>
    obtain ⟨outer, houter, h⟩ := bind_eq_ok_iff.1 h
    obtain ⟨later, hlater, h⟩ := bind_eq_ok_iff.1 h
    cases h
    have hbelow := ih₁ houter
    have hbeside := ih₂ hlater
    rw [List.flatMap_cons, Site.nesting.preorder_eq, List.countP_append, List.countP_cons_of_neg hs,
      FunctionRecord.depthAll_append]
    change FunctionRecord.depthAll outer ≤ ((Site.nesting.children s).flatMap _).countP _ at hbelow
    omega

theorem Readable.exists_forest {root : SyntaxNode} (h : Readable p src root) :
    ∃ rs, forest p src [⟨[], root⟩] = .ok rs := by
  apply Extraction.exists_forest
  intro s hs hfun
  rw [List.flatMap_singleton, Site.nesting.mem_preorder] at hs
  obtain ⟨path, hpath⟩ := hs
  exact h path s hpath hfun

end Extraction

end FunctionInventory
