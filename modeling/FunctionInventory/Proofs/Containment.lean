import FunctionInventory.Proofs.Forest

/-!
# Containment

Paths tell the nodes of a tree apart, addresses tell the records of a forest apart. A
table links the two: the records of the containment forest are those of the functions,
in the order of the source, and each is directly in that of the nearest function around
it.
-/
namespace FunctionInventory.Extraction

variable (p : Profile) (src : SourceText)

/-- A record with the path of its node and its address in the forest. -/
structure Entry where
  path : List Nat
  address : List Nat
  record : FunctionRecord

/-- Two entries, one after the other, are nested as records if and only if they are nested
as nodes. -/
def Aligned (e f : Entry) : Prop :=
  (e.address <+: f.address ↔ e.path <+: f.path) ∧ ¬ f.address <+: e.address ∧ ¬ f.path <+: e.path

theorem not_prefix_of_branches {π ρ x y : List Nat} (h : ¬ π <+: ρ) (h' : ¬ ρ <+: π)
    (hx : π <+: x) (hy : ρ <+: y) : ¬ x <+: y := by
  intro hxy
  rcases List.prefix_or_prefix_of_prefix (hx.trans hxy) hy with hp | hp
  · exact h hp
  · exact h' hp

theorem Aligned.of_branches {π ρ a b : List Nat} {e f : Entry} (hp : ¬ π <+: ρ) (hp' : ¬ ρ <+: π)
    (ha : ¬ a <+: b) (ha' : ¬ b <+: a) (hep : π <+: e.path) (hfp : ρ <+: f.path)
    (hea : a <+: e.address) (hfa : b <+: f.address) : Aligned e f := by
  have h₁ := not_prefix_of_branches hp hp' hep hfp
  have h₂ := not_prefix_of_branches hp' hp hfp hep
  have h₃ := not_prefix_of_branches ha ha' hea hfa
  have h₄ := not_prefix_of_branches ha' ha hfa hea
  exact ⟨by simp [h₁, h₃], h₄, h₂⟩

theorem not_prefix_of_ne (c : List Nat) {i j : Nat} (h : i ≠ j) : ¬ c ++ [i] <+: c ++ [j] := by
  simp [h]

/-- The sites in a row of sites with paths that have records, with their paths. -/
def functionPlaces (row : List (List Nat × Site)) : List (List Nat × Site) :=
  (row.flatMap Site.nesting.placed.preorder).filter fun e => e.2.isFunction p

/-- What is known of the entries of a row of sites, whose forest fills a container from
number `i` on. -/
structure RowTable (row : List (List Nat × Site)) (c : List Nat) (i : Nat)
    (rs : List FunctionRecord) (table : List Entry) : Prop where
  listed : table.map (fun e => (e.address, e.record)) = FunctionRecord.nesting.places c i rs
  paths : table.map (·.path) = (functionPlaces p row).map Prod.fst
  aligned : table.Pairwise Aligned
  built : ∀ e ∈ table, ∃ s, (e.path, s) ∈ functionPlaces p row ∧
    record p src s.ancestors s.node = .ok { e.record with inner := [] }

namespace RowTable

variable {p src} {row : List (List Nat × Site)} {c : List Nat} {i : Nat}
  {rs : List FunctionRecord} {table : List Entry}

theorem exists_address_eq (h : RowTable p src row c i rs table) {e : Entry} (he : e ∈ table) :
    ∃ j σ, e.address = c ++ (i + j) :: σ ∧ j < rs.length := by
  have hmem : (e.address, e.record) ∈ FunctionRecord.nesting.places c i rs := by
    rw [← h.listed]
    exact List.mem_map_of_mem he
  obtain ⟨j, σ, ha, hr⟩ := FunctionRecord.nesting.mem_places.1 hmem
  obtain ⟨r, hj, -⟩ := Option.bind_eq_some_iff.1 hr
  exact ⟨j, σ, ha, (List.getElem?_eq_some_iff.1 hj).1⟩

theorem exists_prefix (h : RowTable p src row c i rs table) {e : Entry} (he : e ∈ table) :
    ∃ x ∈ row, x.1 <+: e.path := by
  obtain ⟨s, hs, -⟩ := h.built e he
  obtain ⟨⟨π, t⟩, hx, hs⟩ := List.mem_flatMap.1 (List.mem_filter.1 hs).1
  obtain ⟨σ, hσ, -⟩ := Site.nesting.mem_placed_preorder.1 hs
  exact ⟨(π, t), hx, σ, hσ.symm⟩

theorem nil (c : List Nat) (i : Nat) : RowTable p src [] c i [] [] where
  listed := rfl
  paths := rfl
  aligned := List.Pairwise.nil
  built := by simp

theorem append {row' : List (List Nat × Site)} {rs' : List FunctionRecord} {table' : List Entry}
    (h : RowTable p src row c i rs table) (h' : RowTable p src row' c (i + rs.length) rs' table')
    (apart : ∀ x ∈ row, ∀ y ∈ row', ¬ x.1 <+: y.1 ∧ ¬ y.1 <+: x.1) :
    RowTable p src (row ++ row') c i (rs ++ rs') (table ++ table') where
  listed := by
    rw [List.map_append, h.listed, h'.listed, FunctionRecord.nesting.places_append]
  paths := by
    rw [List.map_append, h.paths, h'.paths, ← List.map_append]
    simp only [functionPlaces, List.flatMap_append, List.filter_append]
  aligned := by
    rw [List.pairwise_append]
    refine ⟨h.aligned, h'.aligned, ?_⟩
    intro e he f hf
    obtain ⟨x, hx, hxe⟩ := h.exists_prefix he
    obtain ⟨y, hy, hyf⟩ := h'.exists_prefix hf
    obtain ⟨j, σ, hea, hj⟩ := h.exists_address_eq he
    obtain ⟨k, τ, hfa, -⟩ := h'.exists_address_eq hf
    have hne : i + j ≠ i + rs.length + k := by omega
    exact Aligned.of_branches (apart x hx y hy).1 (apart x hx y hy).2 (not_prefix_of_ne c hne)
      (not_prefix_of_ne c hne.symm) hxe hyf ⟨σ, by simp [hea]⟩ ⟨τ, by simp [hfa]⟩
  built := by
    intro e he
    simp only [functionPlaces, List.flatMap_append, List.filter_append]
    rcases List.mem_append.1 he with he | he
    · obtain ⟨s, hs, hr⟩ := h.built e he
      exact ⟨s, List.mem_append_left _ hs, hr⟩
    · obtain ⟨s, hs, hr⟩ := h'.built e he
      exact ⟨s, List.mem_append_right _ hs, hr⟩

theorem functionPlaces_function {π : List Nat} {s : Site} (hs : s.isFunction p) :
    functionPlaces p [(π, s)] =
      (π, s) :: functionPlaces p (Nesting.numbered π 0 s.children) := by
  rw [functionPlaces, List.flatMap_singleton, Site.nesting.placed_preorder_eq,
    List.filter_cons, if_pos hs]
  rfl

theorem functionPlaces_other {π : List Nat} {s : Site} (hs : ¬ s.isFunction p) :
    functionPlaces p [(π, s)] = functionPlaces p (Nesting.numbered π 0 s.children) := by
  rw [functionPlaces, List.flatMap_singleton, Site.nesting.placed_preorder_eq,
    List.filter_cons, if_neg hs]
  rfl

theorem function {π : List Nat} {s : Site} {r : FunctionRecord} (hs : s.isFunction p)
    (hr : record p src s.ancestors s.node = .ok r)
    (h : RowTable p src (Nesting.numbered π 0 s.children) (c ++ [i]) 0 rs table) :
    RowTable p src [(π, s)] c i [{ r with inner := rs }]
      (⟨π, c ++ [i], { r with inner := rs }⟩ :: table) where
  listed := by
    rw [List.map_cons, h.listed, FunctionRecord.nesting.places_cons]
    simp [FunctionRecord.nesting]
  paths := by
    rw [List.map_cons, h.paths, functionPlaces_function hs]
    rfl
  aligned := by
    rw [List.pairwise_cons]
    refine ⟨?_, h.aligned⟩
    intro f hf
    obtain ⟨j, σ, hfa, -⟩ := h.exists_address_eq hf
    obtain ⟨⟨_, t⟩, hx, τ, hτ⟩ := h.exists_prefix hf
    obtain ⟨k, -, rfl⟩ := Nesting.mem_numbered.1 hx
    have hfp : f.path = π ++ (0 + k) :: τ := by simp [← hτ]
    refine ⟨?_, ?_, ?_⟩
    · simp [hfa, hfp]
    · intro hle
      have := hle.length_le
      simp [hfa] at this
    · intro hle
      have := hle.length_le
      simp [hfp] at this
  built := by
    rw [functionPlaces_function hs]
    intro e he
    rcases List.mem_cons.1 he with rfl | he
    · have hinner : r.inner = [] := ((record_eq_ok_iff p src).1 hr).2.2.2.2.2.1
      refine ⟨s, List.mem_cons_self, ?_⟩
      rw [hr]
      cases r
      simp_all
    · obtain ⟨t, ht, hrec⟩ := h.built e he
      exact ⟨t, List.mem_cons_of_mem _ ht, hrec⟩

theorem other {π : List Nat} {s : Site} (hs : ¬ s.isFunction p)
    (h : RowTable p src (Nesting.numbered π 0 s.children) c i rs table) :
    RowTable p src [(π, s)] c i rs table where
  listed := h.listed
  paths := by rw [h.paths, functionPlaces_other hs]
  aligned := h.aligned
  built := by
    rw [functionPlaces_other hs]
    exact h.built

end RowTable

theorem numbered_apart (π : List Nat) (row : List Site) :
    (Nesting.numbered π 0 row).Pairwise fun x y => ¬ x.1 <+: y.1 ∧ ¬ y.1 <+: x.1 := by
  refine (Nesting.pairwise_numbered π 0 row).imp ?_
  rintro ⟨_, s⟩ ⟨_, t⟩ ⟨j, k, hjk, rfl, rfl⟩
  exact ⟨not_prefix_of_ne π (by omega), not_prefix_of_ne π (by omega)⟩

/-- A row of sites, its forest from number `i` of a container on, and the table of both, step by
step as the forest is made. -/
inductive Tabulates : List (List Nat × Site) → List Nat → Nat → List FunctionRecord → List Entry → Prop
  | nil (c : List Nat) (i : Nat) : Tabulates [] c i [] []
  | function {π : List Nat} {s : Site} {row : List (List Nat × Site)} {c : List Nat} {i : Nat}
      {r : FunctionRecord} {inner later : List FunctionRecord} {table table' : List Entry}
      (hs : s.isFunction p) (hr : record p src s.ancestors s.node = .ok r)
      (h : Tabulates (Nesting.numbered π 0 s.children) (c ++ [i]) 0 inner table)
      (h' : Tabulates row c (i + 1) later table') :
      Tabulates ((π, s) :: row) c i ({ r with inner } :: later)
        (⟨π, c ++ [i], { r with inner }⟩ :: table ++ table')
  | other {π : List Nat} {s : Site} {row : List (List Nat × Site)} {c : List Nat} {i : Nat}
      {outer later : List FunctionRecord} {table table' : List Entry} (hs : ¬ s.isFunction p)
      (h : Tabulates (Nesting.numbered π 0 s.children) c i outer table)
      (h' : Tabulates row c (i + outer.length) later table') :
      Tabulates ((π, s) :: row) c i (outer ++ later) (table ++ table')

/-- Every forest has a table. -/
theorem exists_tabulates (sites : List Site) (row : List (List Nat × Site))
    (hrow : row.map Prod.snd = sites) {rs : List FunctionRecord} (h : forest p src sites = .ok rs)
    (c : List Nat) (i : Nat) : ∃ table, Tabulates p src row c i rs table := by
  fun_induction forest p src sites generalizing row rs c i with
  | case1 =>
    cases h
    rw [List.map_eq_nil_iff] at hrow
    subst hrow
    exact ⟨[], .nil c i⟩
  | case2 s rest hs ih₁ ih₂ =>
    obtain ⟨⟨π, t⟩, row, rfl, rfl, rfl⟩ := List.map_eq_cons_iff.1 hrow
    obtain ⟨r, hr, h⟩ := bind_eq_ok_iff.1 h
    obtain ⟨inner, hinner, h⟩ := bind_eq_ok_iff.1 h
    obtain ⟨later, hlater, h⟩ := bind_eq_ok_iff.1 h
    cases h
    obtain ⟨table, ht⟩ := ih₁ (Nesting.numbered π 0 t.children) (Nesting.map_snd_numbered ..)
      hinner (c ++ [i]) 0
    obtain ⟨table', ht'⟩ := ih₂ row rfl hlater c (i + 1)
    exact ⟨_, .function hs hr ht ht'⟩
  | case3 s rest hs ih₁ ih₂ =>
    obtain ⟨⟨π, t⟩, row, rfl, rfl, rfl⟩ := List.map_eq_cons_iff.1 hrow
    obtain ⟨outer, houter, h⟩ := bind_eq_ok_iff.1 h
    obtain ⟨later, hlater, h⟩ := bind_eq_ok_iff.1 h
    cases h
    obtain ⟨table, ht⟩ := ih₁ (Nesting.numbered π 0 t.children) (Nesting.map_snd_numbered ..)
      houter c i
    obtain ⟨table', ht'⟩ := ih₂ row rfl hlater c (i + outer.length)
    exact ⟨_, .other hs ht ht'⟩

variable {p src} in
theorem Tabulates.rowTable {row : List (List Nat × Site)} {c : List Nat} {i : Nat}
    {rs : List FunctionRecord} {table : List Entry} (h : Tabulates p src row c i rs table)
    (apart : row.Pairwise fun x y => ¬ x.1 <+: y.1 ∧ ¬ y.1 <+: x.1) :
    RowTable p src row c i rs table := by
  induction h with
  | nil c i => exact RowTable.nil c i
  | @function π s row c i r inner later table table' hs hr _ _ ih ih' =>
    obtain ⟨hfirst, hrest⟩ := List.pairwise_cons.1 apart
    exact ((ih (numbered_apart π s.children)).function hs hr).append (ih' hrest)
      (by simpa using hfirst)
  | @other π s row c i outer later table table' hs _ _ ih ih' =>
    obtain ⟨hfirst, hrest⟩ := List.pairwise_cons.1 apart
    exact ((ih (numbered_apart π s.children)).other hs).append (ih' hrest) (by simpa using hfirst)

/-- The first path leads to the nearest function around the node of the second. -/
structure Encloses (root : SyntaxNode) (π ρ : List Nat) : Prop where
  isFunctionPath : IsFunctionPath p root π
  isPrefix : π <+: ρ
  ne : π ≠ ρ
  nearest : ∀ σ, IsFunctionPath p root σ → σ <+: ρ → σ ≠ ρ → σ <+: π

/-- A table of the records of a tree: which node each of them is made from, and where it
is in the forest. -/
structure IsTable (root : SyntaxNode) (rs : List FunctionRecord) (table : List Entry) : Prop where
  /-- The records are listed as they are walked through. -/
  records : table.map (·.record) = FunctionRecord.walkAll rs
  /-- Nodes come in the order of the source, outer ones first, and none comes twice. -/
  paths_increasing : (table.map (·.path)).Pairwise (· < ·)
  /-- The nodes are those of the functions. -/
  mem_paths : ∀ π, π ∈ table.map (·.path) ↔ IsFunctionPath p root π
  /-- Siblings in the forest are in the same order as their nodes. -/
  addresses_increasing : (table.map (·.address)).Pairwise (· < ·)
  /-- The addresses are those of the records in the forest. -/
  mem_addresses : ∀ a r, (∃ e ∈ table, e.address = a ∧ e.record = r) ↔
    FunctionRecord.nesting.inRow? rs a = some r
  /-- A record is that of its node, up to what is nested in it. -/
  built : ∀ e ∈ table, ∃ s, siteAt? root e.path = some s ∧
    record p src s.ancestors s.node = .ok { e.record with inner := [] }
  /-- A record is directly in another one if and only if the node of that one is the
  nearest function around its own. -/
  nested : ∀ e ∈ table, ∀ f ∈ table,
    (∃ i, f.address = e.address ++ [i]) ↔ Encloses p root e.path f.path
  /-- A record is a root if and only if no function is around its node. -/
  outermost : ∀ f ∈ table, f.address.length = 1 ↔ ¬ ∃ π, Encloses p root π f.path

theorem mem_functionPlaces_root {root : SyntaxNode} {π : List Nat} {s : Site} :
    (π, s) ∈ functionPlaces p [([], ⟨[], root⟩)] ↔
      siteAt? root π = some s ∧ s.isFunction p := by
  rw [functionPlaces, List.flatMap_singleton, List.mem_filter, Site.nesting.mem_placed_preorder]
  simp [siteAt?]

theorem prefix_iff_of_aligned {table : List Entry} (h : table.Pairwise Aligned) {e f : Entry}
    (he : e ∈ table) (hf : f ∈ table) : e.address <+: f.address ↔ e.path <+: f.path := by
  let R (e f : Entry) : Prop :=
    (e.address <+: f.address ↔ e.path <+: f.path) ∧ (f.address <+: e.address ↔ f.path <+: e.path)
  have : Std.Symm R := ⟨fun _ _ h => h.symm⟩
  have hR : table.Pairwise R := by
    refine h.imp ?_
    rintro e f ⟨h₁, h₂, h₃⟩
    exact ⟨h₁, by simp [h₂, h₃]⟩
  exact (hR.forall_of_forall (fun _ _ => by simp [R]) he hf).1

theorem address_eq_iff_of_aligned {table : List Entry} (h : table.Pairwise Aligned) {e f : Entry}
    (he : e ∈ table) (hf : f ∈ table) : e.address = f.address ↔ e.path = f.path := by
  have hef := prefix_iff_of_aligned h he hf
  have hfe := prefix_iff_of_aligned h hf he
  constructor
  · intro heq
    have h₁ : e.path <+: f.path := hef.1 (by rw [heq])
    exact h₁.eq_of_length (h₁.length_le.antisymm (hfe.1 (by rw [heq])).length_le)
  · intro heq
    have h₁ : e.address <+: f.address := hef.2 (by rw [heq])
    exact h₁.eq_of_length (h₁.length_le.antisymm (hfe.2 (by rw [heq])).length_le)

section
variable {p} {root : SyntaxNode} {rs : List FunctionRecord} {table : List Entry}

/-- Whatever stands at the start of an address is the address of an entry itself. -/
theorem exists_entry_of_prefix
    (addresses : ∀ a r, (∃ e ∈ table, e.address = a ∧ e.record = r) ↔
      FunctionRecord.nesting.inRow? rs a = some r)
    {f : Entry} (hf : f ∈ table) {a : List Nat} (ha : a ≠ []) (haf : a <+: f.address) :
    ∃ e ∈ table, e.address = a := by
  obtain ⟨d, hd⟩ := haf
  have hr := (addresses f.address f.record).1 ⟨f, hf, rfl, rfl⟩
  rw [← hd, FunctionRecord.nesting.inRow?_append ha] at hr
  obtain ⟨r, hr, -⟩ := Option.bind_eq_some_iff.1 hr
  obtain ⟨e, he, hea, -⟩ := (addresses a r).2 hr
  exact ⟨e, he, hea⟩

theorem nested_iff_encloses (aligned : table.Pairwise Aligned)
    (paths : ∀ π, π ∈ table.map (·.path) ↔ IsFunctionPath p root π)
    (addresses : ∀ a r, (∃ e ∈ table, e.address = a ∧ e.record = r) ↔
      FunctionRecord.nesting.inRow? rs a = some r)
    {e f : Entry} (he : e ∈ table) (hf : f ∈ table) :
    (∃ i, f.address = e.address ++ [i]) ↔ Encloses p root e.path f.path := by
  constructor
  · rintro ⟨i, hi⟩
    refine ⟨(paths e.path).1 (List.mem_map_of_mem he), ?_, ?_, ?_⟩
    · exact (prefix_iff_of_aligned aligned he hf).1 ⟨[i], hi.symm⟩
    · intro heq
      rw [← address_eq_iff_of_aligned aligned he hf, hi] at heq
      simp at heq
    · intro σ hσ hσf hne
      obtain ⟨g, hg, rfl⟩ := List.mem_map.1 ((paths σ).2 hσ)
      have hgf := (prefix_iff_of_aligned aligned hg hf).2 hσf
      rw [hi, List.prefix_concat_iff] at hgf
      rcases hgf with hgf | hge
      · exact absurd ((address_eq_iff_of_aligned aligned hg hf).1 (hgf.trans hi.symm)) hne
      · exact (prefix_iff_of_aligned aligned hg he).1 hge
  · rintro ⟨-, hpre, hne, hnear⟩
    obtain ⟨d, hd⟩ := (prefix_iff_of_aligned aligned he hf).2 hpre
    match d with
    | [] =>
      rw [List.append_nil, address_eq_iff_of_aligned aligned he hf] at hd
      exact absurd hd hne
    | [i] => exact ⟨i, hd.symm⟩
    | i :: j :: d =>
      obtain ⟨g, hg, hga⟩ := exists_entry_of_prefix addresses hf (a := e.address ++ [i]) (by simp)
        ⟨j :: d, by simpa using hd⟩
      have hgf : g.address <+: f.address := ⟨j :: d, by rw [hga]; simpa using hd⟩
      have hgne : g.path ≠ f.path := by
        rw [Ne, ← address_eq_iff_of_aligned aligned hg hf, hga, ← hd]
        simp
      have hge := hnear g.path ((paths g.path).1 (List.mem_map_of_mem hg))
        ((prefix_iff_of_aligned aligned hg hf).1 hgf) hgne
      have hlen := ((prefix_iff_of_aligned aligned hg he).2 hge).length_le
      simp [hga] at hlen

theorem outermost_iff_not_enclosed (aligned : table.Pairwise Aligned)
    (paths : ∀ π, π ∈ table.map (·.path) ↔ IsFunctionPath p root π)
    (addresses : ∀ a r, (∃ e ∈ table, e.address = a ∧ e.record = r) ↔
      FunctionRecord.nesting.inRow? rs a = some r)
    {f : Entry} (hf : f ∈ table) :
    f.address.length = 1 ↔ ¬ ∃ π, Encloses p root π f.path := by
  have hne : f.address ≠ [] := by
    intro h
    have := (addresses f.address f.record).1 ⟨f, hf, rfl, rfl⟩
    simp [h, Nesting.inRow?] at this
  constructor
  · rintro hlen ⟨π, hπ⟩
    obtain ⟨e, he, rfl⟩ := List.mem_map.1 ((paths π).2 hπ.isFunctionPath)
    obtain ⟨i, hi⟩ := (nested_iff_encloses aligned paths addresses he hf).2 hπ
    have hea : e.address = [] := by
      rw [hi] at hlen
      simpa using hlen
    have := (addresses e.address e.record).1 ⟨e, he, rfl, rfl⟩
    simp [hea, Nesting.inRow?] at this
  · intro hnone
    by_contra hlen
    have hdrop : f.address.dropLast ≠ [] := by
      intro h
      have := congrArg List.length h
      have := List.length_pos_iff.2 hne
      simp at *
      omega
    obtain ⟨e, he, hea⟩ := exists_entry_of_prefix addresses hf hdrop (List.dropLast_prefix _)
    refine hnone ⟨e.path, (nested_iff_encloses aligned paths addresses he hf).1
      ⟨f.address.getLast hne, ?_⟩⟩
    rw [hea, List.dropLast_append_getLast]

end

variable {p src} in
/-- The table of the row that has the root alone is that of the tree. -/
theorem RowTable.isTable {root : SyntaxNode} {rs : List FunctionRecord} {table : List Entry}
    (ht : RowTable p src [([], ⟨[], root⟩)] [] 0 rs table) : IsTable p src root rs table := by
  have paths : ∀ π, π ∈ table.map (·.path) ↔ IsFunctionPath p root π := by
    intro π
    rw [ht.paths]
    simp [mem_functionPlaces_root, IsFunctionPath]
  have addresses : ∀ a r, (∃ e ∈ table, e.address = a ∧ e.record = r) ↔
      FunctionRecord.nesting.inRow? rs a = some r := by
    intro a r
    rw [← FunctionRecord.nesting.mem_places_zero, ← ht.listed, List.mem_map]
    simp
  have listed_fst := congrArg (List.map Prod.fst) ht.listed
  have listed_snd := congrArg (List.map Prod.snd) ht.listed
  rw [List.map_map] at listed_fst listed_snd
  refine ⟨?_, ?_, paths, ?_, addresses, ?_, ?_, ?_⟩
  · rw [FunctionRecord.nesting.map_snd_places] at listed_snd
    exact listed_snd
  · rw [ht.paths, functionPlaces, List.flatMap_singleton]
    have hsorted := Site.nesting.pairwise_placed_preorder [] ⟨[], root⟩
    exact hsorted.sublist (List.filter_sublist.map Prod.fst)
  · have hsorted := FunctionRecord.nesting.pairwise_places [] 0 rs
    rw [← listed_fst] at hsorted
    exact hsorted
  · intro e he
    obtain ⟨s, hs, hr⟩ := ht.built e he
    exact ⟨s, ((mem_functionPlaces_root p).1 hs).1, hr⟩
  · intro e he f hf
    exact nested_iff_encloses ht.aligned paths addresses he hf
  · intro f hf
    exact outermost_iff_not_enclosed ht.aligned paths addresses hf

/-- The forest of a tree has a table, made step by step. -/
theorem exists_tabulates_root {root : SyntaxNode} {rs : List FunctionRecord}
    (h : forest p src [⟨[], root⟩] = .ok rs) :
    ∃ table, Tabulates p src [([], ⟨[], root⟩)] [] 0 rs table ∧ IsTable p src root rs table ∧
      table.Pairwise Aligned := by
  obtain ⟨table, htable⟩ := exists_tabulates p src [⟨[], root⟩] [([], ⟨[], root⟩)] rfl h [] 0
  have ht := htable.rowTable (by simp)
  exact ⟨table, htable, ht.isTable, ht.aligned⟩

theorem exists_aligned_table {root : SyntaxNode} {rs : List FunctionRecord}
    (h : forest p src [⟨[], root⟩] = .ok rs) :
    ∃ table, IsTable p src root rs table ∧ table.Pairwise Aligned := by
  obtain ⟨table, -, htable⟩ := exists_tabulates_root p src h
  exact ⟨table, htable⟩

theorem exists_table {root : SyntaxNode} {rs : List FunctionRecord}
    (h : forest p src [⟨[], root⟩] = .ok rs) : ∃ table, IsTable p src root rs table := by
  obtain ⟨table, htable, -⟩ := exists_aligned_table p src h
  exact ⟨table, htable⟩

namespace IsTable

variable {p src} {root : SyntaxNode} {rs : List FunctionRecord} {table : List Entry}

/-- Every entry has the site of a function. -/
theorem exists_site (h : IsTable p src root rs table) {e : Entry} (he : e ∈ table) :
    ∃ s, siteAt? root e.path = some s ∧ s.isFunction p ∧
      record p src s.ancestors s.node = .ok { e.record with inner := [] } := by
  obtain ⟨s, hs, hr⟩ := h.built e he
  obtain ⟨t, ht, hfun⟩ := (h.mem_paths e.path).1 (List.mem_map_of_mem he)
  obtain rfl : s = t := Option.some.inj (hs.symm.trans ht)
  exact ⟨s, hs, hfun, hr⟩

theorem exists_entry (h : IsTable p src root rs table) {path : List Nat}
    (hpath : IsFunctionPath p root path) : ∃ e ∈ table, e.path = path :=
  List.mem_map.1 ((h.mem_paths path).2 hpath)

theorem inRow?_concat (h : IsTable p src root rs table) {e : Entry} (he : e ∈ table) (i : Nat) :
    FunctionRecord.nesting.inRow? rs (e.address ++ [i]) = e.record.inner[i]? := by
  have hr := (h.mem_addresses e.address e.record).1 ⟨e, he, rfl, rfl⟩
  have hne : e.address ≠ [] := by
    intro hnil
    simp [hnil, Nesting.inRow?] at hr
  rw [FunctionRecord.nesting.inRow?_append hne, hr]
  simp [Nesting.follow?, FunctionRecord.nesting]

theorem getElem?_inner_iff (h : IsTable p src root rs table) {e : Entry} (he : e ∈ table) (i : Nat)
    (r : FunctionRecord) :
    e.record.inner[i]? = some r ↔ ∃ f ∈ table, f.address = e.address ++ [i] ∧ f.record = r := by
  rw [← h.inRow?_concat he, h.mem_addresses]

/-- What is directly in a record is what its node encloses. -/
theorem mem_inner_iff (h : IsTable p src root rs table) {e : Entry} (he : e ∈ table)
    (r : FunctionRecord) :
    r ∈ e.record.inner ↔ ∃ f ∈ table, f.record = r ∧ Encloses p root e.path f.path := by
  rw [List.mem_iff_getElem?]
  simp only [h.getElem?_inner_iff he]
  constructor
  · rintro ⟨i, f, hf, hi, hr⟩
    exact ⟨f, hf, hr, (h.nested e he f hf).1 ⟨i, hi⟩⟩
  · rintro ⟨f, hf, hr, hef⟩
    obtain ⟨i, hi⟩ := (h.nested e he f hf).2 hef
    exact ⟨i, f, hf, hi, hr⟩

theorem mem_roots_iff (h : IsTable p src root rs table) (r : FunctionRecord) :
    r ∈ rs ↔ ∃ f ∈ table, f.record = r ∧ ¬ ∃ π, Encloses p root π f.path := by
  have hrow : ∀ i, FunctionRecord.nesting.inRow? rs [i] = rs[i]? := by
    intro i
    simp [Nesting.inRow?]
  rw [List.mem_iff_getElem?]
  simp only [← hrow, ← h.mem_addresses]
  constructor
  · rintro ⟨i, f, hf, hi, hr⟩
    exact ⟨f, hf, hr, (h.outermost f hf).1 (by rw [hi]; rfl)⟩
  · rintro ⟨f, hf, hr, hnone⟩
    obtain ⟨i, hi⟩ := List.length_eq_one_iff.1 ((h.outermost f hf).2 hnone)
    exact ⟨i, f, hf, hi, hr⟩

theorem mem_walkAll_iff (h : IsTable p src root rs table) (r : FunctionRecord) :
    r ∈ FunctionRecord.walkAll rs ↔ ∃ e ∈ table, e.record = r := by
  rw [← h.records, List.mem_map]

end IsTable

/-- Extraction finds the containment forest of every tree whose texts can be read. It has
exactly one record for each function, in the order of the source, and each record is
directly in that of the nearest function around it. -/
theorem functions_containment (root : SyntaxNode) (h : Readable p src root) :
    ∃ rs, functions p src root = .ok rs ∧ forest p src [⟨[], root⟩] = .ok rs ∧
      ∃ table, IsTable p src root rs table := by
  obtain ⟨rs, hrs⟩ := h.exists_forest
  exact ⟨rs, by rw [functions_eq_forest, hrs], hrs, exists_table p src hrs⟩

namespace Sample

/-- A function that a default export names, with an arrow function in a call. -/
def source : SourceText := .ofText "export default function f(x){return g(()=>x)}"

def arrow : SyntaxNode := {
  kind := "arrow_function", start := 38, stop := 43, children := [
    { kind := "formal_parameters", start := 38, stop := 40, field := some "parameters" },
    { kind := "identifier", start := 42, stop := 43, field := some "body" }] }

def arguments : SyntaxNode := {
  kind := "arguments", start := 37, stop := 44, field := some "arguments", children := [arrow] }

def call : SyntaxNode := {
  kind := "call_expression", start := 36, stop := 44, children := [
    { kind := "identifier", start := 36, stop := 37, field := some "function" }, arguments] }

def body : SyntaxNode := {
  kind := "statement_block", start := 28, stop := 45, field := some "body", children := [call] }

def function : SyntaxNode := {
  kind := "function_expression", start := 15, stop := 45, children := [
    { kind := "identifier", start := 24, stop := 25, field := some "name" },
    { kind := "formal_parameters", start := 25, stop := 28, field := some "parameters"
      children := [{ kind := "identifier", start := 26, stop := 27 }] },
    body] }

def wrapper : SyntaxNode := {
  kind := "export_statement", start := 0, stop := 45, children := [
    { kind := "default", start := 7, stop := 14, named := false }, function] }

def tree : SyntaxNode := { kind := "program", start := 0, stop := 45, children := [wrapper] }

theorem functionSites : (Site.nesting.preorder ⟨[], tree⟩).filter (·.isFunction .javaScript) =
    [⟨[wrapper, tree], function⟩, ⟨[arguments, call, body, function, wrapper, tree], arrow⟩] := by
  simp [Nesting.preorder_eq, Site.nesting, Site.children, SyntaxNode.namedChildren, tree, wrapper,
    function, body, call, arguments, arrow, Site.isFunction, Profile.isFunction, Profile.javaScript]

theorem calls_function : calls source function = .ok (.ofList ["g"]) := by
  have hcallees : function.preorder.filterMap bareCallee =
      [{ kind := "identifier", start := 36, stop := 37, field := some "function" }] := by
    simp [SyntaxNode.preorder_eq, SyntaxNode.namedChildren, function, body, call, arguments, arrow,
      bareCallee, SyntaxNode.childWithField]
  rw [calls, hcallees]
  decide +kernel

theorem calls_arrow : calls source arrow = .ok ∅ := by
  have hcallees : arrow.preorder.filterMap bareCallee = [] := by
    simp [SyntaxNode.preorder_eq, SyntaxNode.namedChildren, arrow, bareCallee]
  rw [calls, hcallees]
  rfl

theorem record_function : record .javaScript source [wrapper, tree] function = .ok {
    name := "f"
    parameters := [{ name := "x" }]
    lines := lineRange source 0 45
    sourceText := "export default function f(x){return g(()=>x)}"
    calls := .ofList ["g"] } := by
  refine (record_eq_ok_iff ..).2 ⟨?_, ?_, rfl, rfl, ?_, rfl, calls_function⟩
  all_goals decide +kernel

theorem record_arrow :
    record .javaScript source [arguments, call, body, function, wrapper, tree] arrow = .ok {
      name := anonymous
      lines := lineRange source 38 43
      sourceText := "()=>x" } := by
  refine (record_eq_ok_iff ..).2 ⟨rfl, rfl, rfl, rfl, ?_, rfl, calls_arrow⟩
  decide +kernel

theorem readable : Readable .javaScript source tree := by
  rw [Readable, forall_functions_iff, functionSites]
  rw [List.forall_mem_cons, List.forall_mem_singleton]
  constructor
  · exact ⟨_, record_function⟩
  · exact ⟨_, record_arrow⟩

theorem functions_containment_sample : Readable .javaScript source tree ∧
    ∃ rs, functions .javaScript source tree = .ok rs ∧
      forest .javaScript source [⟨[], tree⟩] = .ok rs ∧
      ∃ table, IsTable .javaScript source tree rs table :=
  ⟨readable, functions_containment .javaScript source tree readable⟩

end Sample

end FunctionInventory.Extraction
