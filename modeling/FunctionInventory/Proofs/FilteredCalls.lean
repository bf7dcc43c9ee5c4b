import FunctionInventory.Proofs.Calls
import FunctionInventory.Proofs.FunctionIndexes
import FunctionInventory.Proofs.RecordRoundTrip

/-!
# Filtered calls

Resolving is a filter on the calls of a record and of all records nested in it, as deep as it
goes. Filters are put together by intersection, and leave everything else of a forest alone. Where
all files of a batch are resolved against their own names, the names stay the same: so a second
time changes nothing, and neither does the order of the files.
-/
namespace FunctionInventory

namespace NameSet

variable {a b : Text → Bool} {s : NameSet}

theorem filter_filter (a b : Text → Bool) (s : NameSet) :
    (s.filter a).filter b = s.filter fun t => a t && b t := by
  simp [filter, List.filter_filter, Bool.and_comm]

theorem filter_eq_self_iff : s.filter a = s ↔ ∀ t ∈ s.names, a t := by
  rw [← List.filter_eq_self]
  cases s
  simp [filter]

/-- The second set has exactly those names of the first one that are among the given names. -/
def KeepsOnly (names : Text → Prop) (s s' : NameSet) : Prop :=
  ∀ t, t ∈ s'.names ↔ t ∈ s.names ∧ names t

end NameSet

namespace FunctionRecord

/-- The records are the same in all but their calls, and so are the records nested in them, at
every depth and in the same places; the calls are related by `R`. -/
inductive SameUpToCalls (R : NameSet → NameSet → Prop) : FunctionRecord → FunctionRecord → Prop where
  | intro {name : Text} {parameters : List Parameter} {returnType : Text} {lines : LineRange}
      {sourceText : Text} {inner inner' : List FunctionRecord} {calls calls' : NameSet}
      (hcalls : R calls calls') (hinner : List.Forall₂ (SameUpToCalls R) inner inner') :
      SameUpToCalls R ⟨name, parameters, returnType, lines, sourceText, inner, calls⟩
        ⟨name, parameters, returnType, lines, sourceText, inner', calls'⟩

variable {a b : Text → Bool}

mutual

/-- One filter behind another keeps what both of them keep. -/
theorem filterCalls_filterCalls (a b : Text → Bool) : (r : FunctionRecord) →
    (r.filterCalls a).filterCalls b = r.filterCalls fun t => a t && b t
  | ⟨name, parameters, returnType, lines, sourceText, inner, calls⟩ => by
    have hinner := filterAll_filterAll a b inner
    simp only [filterCalls, hinner, NameSet.filter_filter]

theorem filterAll_filterAll (a b : Text → Bool) : (rs : List FunctionRecord) →
    filterAll b (filterAll a rs) = filterAll (fun t => a t && b t) rs
  | [] => by simp only [filterAll]
  | r :: rs => by
    have hrest := filterAll_filterAll a b rs
    simp only [filterAll, filterCalls_filterCalls a b r, hrest]

end

theorem filterAll_idem (a : Text → Bool) (rs : List FunctionRecord) :
    filterAll a (filterAll a rs) = filterAll a rs := by
  rw [filterAll_filterAll]
  simp only [Bool.and_self]

mutual

/-- A filter changes nothing exactly if it knows all names that are called. -/
theorem filterCalls_eq_self_iff : (r : FunctionRecord) →
    (r.filterCalls a = r ↔ ∀ s ∈ r.walk, ∀ t ∈ s.calls.names, a t)
  | ⟨name, parameters, returnType, lines, sourceText, inner, calls⟩ => by
    rw [walk_eq, List.forall_mem_cons, ← filterAll_eq_self_iff inner,
      ← NameSet.filter_eq_self_iff]
    simp [filterCalls, and_comm]

theorem filterAll_eq_self_iff : (rs : List FunctionRecord) →
    (filterAll a rs = rs ↔ ∀ r ∈ walkAll rs, ∀ t ∈ r.calls.names, a t)
  | [] => by simp [filterAll]
  | r :: rs => by
    rw [walkAll, List.flatMap_cons, List.forall_mem_append, ← walkAll,
      ← filterCalls_eq_self_iff r, ← filterAll_eq_self_iff rs]
    simp [filterAll]

end

mutual

/-- Two filters of one record differ in the calls only, and there as they do on any set. -/
theorem sameUpToCalls_filterCalls {R : NameSet → NameSet → Prop}
    (h : ∀ s : NameSet, R (s.filter a) (s.filter b)) : (r : FunctionRecord) →
    SameUpToCalls R (r.filterCalls a) (r.filterCalls b)
  | ⟨name, parameters, returnType, lines, sourceText, inner, calls⟩ => by
    rw [filterCalls, filterCalls]
    exact .intro (h calls) (sameUpToCalls_filterAll h inner)

theorem sameUpToCalls_filterAll {R : NameSet → NameSet → Prop}
    (h : ∀ s : NameSet, R (s.filter a) (s.filter b)) : (rs : List FunctionRecord) →
    List.Forall₂ (SameUpToCalls R) (filterAll a rs) (filterAll b rs)
  | [] => by
    rw [filterAll, filterAll]
    exact .nil
  | r :: rs => by
    rw [filterAll, filterAll]
    exact .cons (sameUpToCalls_filterCalls h r) (sameUpToCalls_filterAll h rs)

end

/-- One step of resolving behind another, wherever it is reached. -/
theorem resolveAll_bind_resolveAll (limit : Nat) (a b : Text → Bool) (rs : List FunctionRecord) :
    resolveAll limit a rs >>= resolveAll limit b = resolveAll limit (fun t => a t && b t) rs := by
  rcases Nat.lt_or_ge limit (depthAll rs) with hdeep | hdepth
  · rw [resolveAll_eq_error a hdeep, resolveAll_eq_error _ hdeep]
    rfl
  · have hagain : depthAll (filterAll a rs) ≤ limit := by rwa [depthAll_filterAll]
    rw [resolveAll_eq_ok a hdepth, resolveAll_eq_ok _ hdepth, ← filterAll_filterAll]
    exact resolveAll_eq_ok b hagain

theorem resolveAll_append (limit : Nat) (a : Text → Bool) (rs rs' : List FunctionRecord) :
    resolveAll limit a (rs ++ rs') = do
      return (← resolveAll limit a rs) ++ (← resolveAll limit a rs') := by
  rw [resolveAll, List.mapM_append]
  rfl

/-- The algebra of filters. They have a result for the forests that are not nested deeper than
resolving goes, and for no others. One filter behind another is the filter of the intersection, so
that a filter is idempotent and filters commute. More names keep more calls, at every depth and
with all else the same. A filter changes nothing exactly if it knows every name that is called at
any depth. It goes along with putting forests together and with going through them. -/
theorem filters_compose (limit : Nat) (a b : Text → Bool) (rs rs' : List FunctionRecord) :
    ((∃ ss, resolveAll limit a rs = .ok ss) ↔ depthAll rs ≤ limit) ∧
    (limit < depthAll rs → resolveAll limit a rs = .error .resolving) ∧
    resolveAll limit a rs >>= resolveAll limit b = resolveAll limit (fun t => a t && b t) rs ∧
    resolveAll limit a rs >>= resolveAll limit a = resolveAll limit a rs ∧
    resolveAll limit a rs >>= resolveAll limit b = resolveAll limit b rs >>= resolveAll limit a ∧
    ((∀ t, a t → b t) → ∀ ss ss', resolveAll limit a rs = .ok ss →
      resolveAll limit b rs = .ok ss' →
      List.Forall₂ (SameUpToCalls fun s s' => s.names ⊆ s'.names) ss ss') ∧
    (depthAll rs ≤ limit →
      (resolveAll limit a rs = .ok rs ↔ ∀ r ∈ walkAll rs, ∀ t ∈ r.calls.names, a t)) ∧
    (resolveAll limit a (rs ++ rs') = do
      return (← resolveAll limit a rs) ++ (← resolveAll limit a rs')) ∧
    (∀ ss, resolveAll limit a rs = .ok ss → walkAll ss = (walkAll rs).map (filterCalls a)) ∧
    ∀ r s, resolve limit a r = .ok s →
      s = r.filterCalls a ∧ s.walk = r.walk.map (filterCalls a) := by
  refine ⟨?_, resolveAll_eq_error a, resolveAll_bind_resolveAll limit a b rs, ?_, ?_, ?_, ?_,
    resolveAll_append limit a rs rs', ?_, ?_⟩
  · simp only [resolveAll_eq_ok_iff, exists_and_left, exists_eq, and_true]
  · rw [resolveAll_bind_resolveAll]
    simp only [Bool.and_self]
  · rw [resolveAll_bind_resolveAll, resolveAll_bind_resolveAll]
    simp only [Bool.and_comm]
  · intro hsub ss ss' hss hss'
    obtain ⟨-, rfl⟩ := resolveAll_eq_ok_iff.1 hss
    obtain ⟨-, rfl⟩ := resolveAll_eq_ok_iff.1 hss'
    refine sameUpToCalls_filterAll (fun s t ht => ?_) rs
    obtain ⟨hmem, ha⟩ := NameSet.mem_filter.1 ht
    exact NameSet.mem_filter.2 ⟨hmem, hsub t ha⟩
  · intro hdepth
    rw [resolveAll_eq_ok_iff, and_iff_right hdepth, eq_comm, filterAll_eq_self_iff]
  · intro ss hss
    obtain ⟨-, rfl⟩ := resolveAll_eq_ok_iff.1 hss
    exact walkAll_filterAll a rs
  · intro r s hs
    obtain ⟨-, rfl⟩ := resolve_eq_ok_iff.1 hs
    exact ⟨rfl, walk_filterCalls a r⟩

namespace Sample

def inner : FunctionRecord where
  name := "g"
  lines := default
  sourceText := "function g()\x7bg(); h()\x7d"
  calls := .ofList ["g", "h"]

/-- A function that calls more than the function in it. -/
def outer : FunctionRecord where
  name := "f"
  lines := default
  sourceText := "function f()\x7bf(); function g()\x7bg(); h()\x7d\x7d"
  inner := [inner]
  calls := .ofList ["f", "g", "h"]

def among (names : List Text) (t : Text) : Bool := names.contains t

theorem depthAll_outer : depthAll [outer] = 2 := by
  simp [depth_eq, outer, inner]

theorem filters_compose_sample : (∀ t, among ["g"] t → among ["g", "h"] t) ∧
    ∃ ss ss', resolveAll 331 (among ["g"]) [outer] = .ok ss ∧
      resolveAll 331 (among ["g", "h"]) [outer] = .ok ss' ∧
      List.Forall₂ (SameUpToCalls fun s s' => s.names ⊆ s'.names) ss ss' ∧
      resolveAll 331 (among ["g"]) [outer] ≠ .ok [outer] := by
  have hsub : ∀ t, among ["g"] t → among ["g", "h"] t := by
    intro t ht
    simp only [among, List.contains_cons, Bool.or_eq_true] at ht ⊢
    rcases ht with ht | ht
    · exact Or.inl ht
    · simp at ht
  have hdepth : depthAll [outer] ≤ 331 := by
    rw [depthAll_outer]
    decide
  obtain ⟨hreturns, -, -, -, -, hmono, hself, -⟩ :=
    filters_compose 331 (among ["g"]) (among ["g", "h"]) [outer] []
  obtain ⟨ss, hss⟩ := hreturns.2 hdepth
  have hss' := resolveAll_eq_ok (among ["g", "h"]) hdepth
  refine ⟨hsub, ss, _, hss, hss', hmono hsub ss _ hss hss', fun hsame => ?_⟩
  have hcall : ("f" : Text) ∈ outer.calls.names := by decide +kernel
  have hf : among ["g"] "f" = true := (hself hdepth).1 hsame outer (by simp) "f" hcall
  exact absurd hf (by decide)

/-- Of 1200 functions nested in each other no call is to be left out, and they are not resolved. -/
theorem resolveAll_ofArrows :
    (∀ r ∈ walkAll [ofArrows 1199], ∀ t ∈ r.calls.names, among [] t) ∧
    resolveAll (default : Limits).resolving (among []) [ofArrows 1199] = .error .resolving := by
  constructor
  · have hnone : ∀ n, ∀ r ∈ walkAll [ofArrows n], r.calls.names = [] := by
      intro n
      induction n with
      | zero =>
        intro r hr
        obtain rfl : r = ofArrows 0 := by simpa [ofArrows] using hr
        rfl
      | succ n ih =>
        intro r hr
        rw [walkAll_cons, walkAll_nil, List.append_nil] at hr
        rcases List.mem_cons.1 hr with rfl | hr
        · rfl
        · exact ih r hr
    intro r hr t ht
    rw [hnone 1199 r hr] at ht
    cases ht
  · have hdeep : 331 < depthAll [ofArrows 1199] := by simp
    exact resolveAll_eq_error (among []) hdeep

end Sample

end FunctionRecord

/-- The file with the calls to known names only. -/
def FileFunctions.filterCalls (known : Text → Bool) (f : FileFunctions) : FileFunctions :=
  { f with functions := FunctionRecord.filterAll known f.functions }

/-- The functions of the files are nested at most so deep. -/
def DepthWithin (limit : Nat) (files : List FileFunctions) : Prop :=
  ∀ f ∈ files, FunctionRecord.depthAll f.functions ≤ limit

/-- The name is that of a function in one of the files. -/
def NamedIn (files : List FileFunctions) (t : Text) : Prop :=
  ∃ f ∈ files, ∃ r ∈ FunctionRecord.walkAll f.functions, r.name = t

theorem resolveFiles_eq_error {limit : Nat} {files : List FileFunctions}
    (h : ¬ DepthWithin limit files) : resolveFiles limit files = .error .resolving := by
  unfold DepthWithin at h
  push Not at h
  obtain ⟨f, hf, hdeep⟩ := h
  cases hresolved : resolveFiles limit files with
  | error e =>
    obtain ⟨g, -, hg⟩ := exists_mem_of_mapM_eq_error hresolved
    rw [map_eq_error_iff] at hg
    rcases Nat.lt_or_ge limit (FunctionRecord.depthAll g.functions) with hlt | hle
    · rw [FunctionRecord.resolveAll_eq_error _ hlt] at hg
      cases hg
      rfl
    · rw [FunctionRecord.resolveAll_eq_ok _ hle] at hg
      cases hg
  | ok resolved =>
    obtain ⟨g, hg⟩ := exists_ok_of_mem hresolved hf
    rw [FunctionRecord.resolveAll_eq_error _ hdeep] at hg
    cases hg

theorem resolveFiles_eq_ok {limit : Nat} {files : List FileFunctions}
    (h : DepthWithin limit files) : resolveFiles limit files =
      .ok (files.map
        (.filterCalls (FunctionIndex.ofForests (files.map (·.functions))).declares)) := by
  rw [resolveFiles, mapM_eq_ok_iff, List.forall₂_map_right_iff, List.forall₂_same]
  intro f hf
  rw [FunctionRecord.resolveAll_eq_ok _ (h f hf)]
  rfl

/-- Files are resolved against the names of all functions in them, except `anonymous`. -/
theorem exists_resolveFiles_eq (files : List FileFunctions) :
    ∃ known, (∀ t, known t = true ↔ t ≠ anonymous ∧ NamedIn files t) ∧
      ∀ limit, DepthWithin limit files →
        resolveFiles limit files = .ok (files.map (.filterCalls known)) := by
  refine ⟨_, fun t => ?_, fun _ => resolveFiles_eq_ok⟩
  rw [FunctionIndex.declares_ofForests, and_comm]
  simp only [List.mem_map, exists_exists_and_eq_and, NamedIn]

/-- Which names the files have is all that matters for resolving a file. -/
theorem exists_resolve_both {limit : Nat} {files files' : List FileFunctions}
    (hdepth : DepthWithin limit files) (hdepth' : DepthWithin limit files')
    (h : ∀ t, NamedIn files' t ↔ NamedIn files t) :
    ∃ known, resolveFiles limit files = .ok (files.map (.filterCalls known)) ∧
      resolveFiles limit files' = .ok (files'.map (.filterCalls known)) := by
  obtain ⟨known, hknown, hfiles⟩ := exists_resolveFiles_eq files
  obtain ⟨known', hknown', hfiles'⟩ := exists_resolveFiles_eq files'
  have heq : known' = known := by
    funext t
    rw [Bool.eq_iff_iff, hknown, hknown', h]
  exact ⟨known, hfiles limit hdepth, heq ▸ hfiles' limit hdepth'⟩

/-- Resolving changes no names. -/
theorem namedIn_map_filterCalls (known : Text → Bool) {files : List FileFunctions} {t : Text} :
    NamedIn (files.map (.filterCalls known)) t ↔ NamedIn files t := by
  simp only [NamedIn, List.mem_map, exists_exists_and_eq_and, FileFunctions.filterCalls,
    FunctionRecord.walkAll_filterAll, FunctionRecord.name_filterCalls]

theorem depthWithin_map_filterCalls {limit : Nat} {known : Text → Bool}
    {files : List FileFunctions} :
    DepthWithin limit (files.map (.filterCalls known)) ↔ DepthWithin limit files := by
  simp [DepthWithin, FileFunctions.filterCalls]

theorem resolveFiles_idem (limit : Nat) (files : List FileFunctions) :
    resolveFiles limit files >>= resolveFiles limit = resolveFiles limit files := by
  by_cases hdepth : DepthWithin limit files
  · obtain ⟨known, -, hresolve⟩ := exists_resolveFiles_eq files
    have hfiles := hresolve limit hdepth
    obtain ⟨known', hfiles', hagain⟩ := exists_resolve_both hdepth
      (depthWithin_map_filterCalls.2 hdepth) fun _ => namedIn_map_filterCalls known
    have hsame : files.map (FileFunctions.filterCalls known) =
        files.map (FileFunctions.filterCalls known') :=
      Except.ok.inj (hfiles.symm.trans hfiles')
    have htwice : (files.map (.filterCalls known')).map (.filterCalls known') =
        files.map (FileFunctions.filterCalls known') := by
      rw [List.map_map]
      apply List.map_congr_left
      intro f _
      simp [FileFunctions.filterCalls, FunctionRecord.filterAll_idem]
    rw [hfiles]
    change resolveFiles limit (files.map (.filterCalls known)) = _
    rw [hagain, hsame, htwice]
  · rw [resolveFiles_eq_error hdepth]
    rfl

/-- The items at the given places, in the order of the places. -/
def atPlaces {α : Type} (places : List Nat) (as : List α) : List α := places.filterMap (as[·]?)

theorem mem_atPlaces {α : Type} {places : List Nat} {as : List α}
    (h : places.Perm (List.range as.length)) {x : α} : x ∈ atPlaces places as ↔ x ∈ as := by
  rw [atPlaces, List.mem_filterMap, List.mem_iff_getElem?]
  constructor
  · rintro ⟨i, -, hi⟩
    exact ⟨i, hi⟩
  · rintro ⟨i, hi⟩
    have hlt : i < as.length := (List.getElem?_eq_some_iff.1 hi).1
    exact ⟨i, h.mem_iff.2 (List.mem_range.2 hlt), hi⟩

theorem atPlaces_map {α β : Type} (f : α → β) (places : List Nat) (as : List α) :
    atPlaces places (as.map f) = (atPlaces places as).map f := by
  rw [atPlaces, atPlaces, List.map_filterMap]
  simp only [List.getElem?_map]

/-- Files in another order are resolved as in the first one. -/
theorem resolveFiles_atPlaces (limit : Nat) {files : List FileFunctions} {places : List Nat}
    (h : places.Perm (List.range files.length)) :
    resolveFiles limit (atPlaces places files) =
      (resolveFiles limit files).map (atPlaces places) := by
  have hdepths : DepthWithin limit (atPlaces places files) ↔ DepthWithin limit files := by
    simp only [DepthWithin, mem_atPlaces h]
  by_cases hdepth : DepthWithin limit files
  · have hnames : ∀ t, NamedIn (atPlaces places files) t ↔ NamedIn files t := by
      intro t
      simp only [NamedIn, mem_atPlaces h]
    obtain ⟨known, hfiles, hplaces⟩ := exists_resolve_both hdepth (hdepths.2 hdepth) hnames
    rw [hplaces, hfiles, ← atPlaces_map]
    rfl
  · rw [resolveFiles_eq_error hdepth, resolveFiles_eq_error (mt hdepths.1 hdepth)]
    rfl

/-- The second file has the path and errors of the first one, and its functions with exactly
the calls to the given names, at every depth. -/
structure FileFunctions.KeepsOnly (names : Text → Prop) (f f' : FileFunctions) : Prop where
  path : f'.path = f.path
  errors : f'.errors = f.errors
  functions : List.Forall₂ (FunctionRecord.SameUpToCalls (NameSet.KeepsOnly names))
    f.functions f'.functions

theorem FileFunctions.keepsOnly_filterCalls {known : Text → Bool} {names : Text → Prop}
    (h : ∀ t, known t ↔ names t) (f : FileFunctions) : f.KeepsOnly names (f.filterCalls known) where
  path := rfl
  errors := rfl
  functions := by
    have hcalls : ∀ s : NameSet,
        NameSet.KeepsOnly names (s.filter fun _ => true) (s.filter known) := by
      intro s t
      simp [NameSet.mem_filter, h]
    have hall := FunctionRecord.sameUpToCalls_filterAll hcalls f.functions
    rwa [(FunctionRecord.filterAll_eq_self_iff f.functions).2 fun _ _ _ _ => rfl] at hall

/-- What resolving a batch does. It has a result unless the functions of a file are nested deeper
than it goes. The files are then the same ones in the same order, and at every depth each record
has exactly those of its calls that go to the name, other than `anonymous`, of a record at any
depth in any of the files. A second time changes nothing, and files in another order have the
same results in that order. -/
theorem resolveFiles_exact (limit : Nat) (files : List FileFunctions) :
    ((∃ f ∈ files, limit < FunctionRecord.depthAll f.functions) ∧
        resolveFiles limit files = .error .resolving ∨
      (∀ f ∈ files, FunctionRecord.depthAll f.functions ≤ limit) ∧
        ∃ resolved, resolveFiles limit files = .ok resolved ∧
          List.Forall₂ (FileFunctions.KeepsOnly fun t => t ≠ anonymous ∧ NamedIn files t) files
            resolved) ∧
    resolveFiles limit files >>= resolveFiles limit = resolveFiles limit files ∧
    ∀ places : List Nat, places.Perm (List.range files.length) →
      resolveFiles limit (atPlaces places files) =
        (resolveFiles limit files).map (atPlaces places) := by
  refine ⟨?_, resolveFiles_idem limit files, fun places => resolveFiles_atPlaces limit⟩
  by_cases hdepth : DepthWithin limit files
  · obtain ⟨known, hknown, hfiles⟩ := exists_resolveFiles_eq files
    refine .inr ⟨hdepth, _, hfiles limit hdepth, ?_⟩
    rw [List.forall₂_map_right_iff, List.forall₂_same]
    exact fun f _ => f.keepsOnly_filterCalls hknown
  · refine .inl ⟨?_, resolveFiles_eq_error hdepth⟩
    unfold DepthWithin at hdepth
    push Not at hdepth
    exact hdepth

namespace FileFunctions.Sample

/-- One file has the function `h` that the other one calls; neither has `x`. -/
def files : List FileFunctions := [
  { path := "f.js", functions := [FunctionRecord.Sample.outer] },
  { path := "h.js", functions := [{
      name := "h"
      lines := default
      sourceText := "function h()\x7bf(); x()\x7d"
      calls := .ofList ["f", "x"] }] }]

theorem depthWithin_files : DepthWithin 331 files := by
  simp [DepthWithin, files, FunctionRecord.depth_eq, FunctionRecord.Sample.outer,
    FunctionRecord.Sample.inner]

theorem resolveFiles_exact_swapped : [1, 0].Perm (List.range files.length) ∧
    ∃ resolved, resolveFiles 331 files = .ok resolved ∧
      List.Forall₂ (KeepsOnly fun t => t ≠ anonymous ∧ NamedIn files t) files resolved ∧
      resolveFiles 331 (atPlaces [1, 0] files) = .ok (atPlaces [1, 0] resolved) := by
  have hswap : [1, 0].Perm (List.range files.length) := by decide
  obtain ⟨⟨⟨f, hf, hdeep⟩, -⟩ | ⟨-, resolved, hresolved, hkeeps⟩, -, hplaces⟩ :=
    resolveFiles_exact 331 files
  · exact absurd (depthWithin_files f hf) (Nat.not_le_of_gt hdeep)
  · refine ⟨hswap, resolved, hresolved, hkeeps, (hplaces [1, 0] hswap).trans ?_⟩
    rw [hresolved]
    rfl

/-- A file with 1200 functions nested in each other keeps all files from being resolved. -/
theorem resolveFiles_ofArrows : resolveFiles (default : Limits).resolving
    [{ path := "arrows.ts", functions := [.ofArrows 1199] }] = .error .resolving := by
  refine resolveFiles_eq_error fun hdepth => ?_
  have hle := hdepth _ (List.mem_singleton_self _)
  have hdeep : 331 < FunctionRecord.depthAll [.ofArrows 1199] := by simp
  exact absurd hle (Nat.not_le_of_gt hdeep)

end FileFunctions.Sample

end FunctionInventory
