import FunctionInventory.Loading
import FunctionInventory.Proofs.Outcomes
import Mathlib.Data.List.Infix

/-!
# Merging results with what was loaded

Results are taken one after the other, but only where a unit was loaded. Merging ends well exactly
if the results are those of the units by their paths; then nothing is lost and everything stays in
its place. Otherwise the first unit without a result of its own is named, or the results that are
left over are.
-/
namespace FunctionInventory.Loading

/-- The entries at the places where units were loaded. -/
def atUnits (loaded : List LoadedFile) (merged : List FileFunctions) : List FileFunctions :=
  (loaded.zip merged).filterMap fun e => match e.1 with
    | .unit _ => some e.2
    | .failed _ => none

/-- The files that could not be read are in their places, and between them are the results. -/
structure IsMerged (loaded : List LoadedFile) (results merged : List FileFunctions) : Prop where
  length_eq : merged.length = loaded.length
  kept : ∀ (i : Nat) (f : FileFunctions), loaded[i]? = some (.failed f) → merged[i]? = some f
  atUnits_eq : atUnits loaded merged = results

/-- The units before have results with their paths, but this one has not: there is none left, or
it has another path. -/
def FirstUnmatched (us : List SourceUnit) (results : List FileFunctions) (u : SourceUnit) : Prop :=
  ∃ before after, us = before ++ u :: after ∧
    (results.take before.length).map (·.path) = before.map (·.path) ∧
    results[before.length]?.map (·.path) ≠ some u.path

/-- There are results for all units, and then more. -/
def Exceeds (results : List FileFunctions) (us : List SourceUnit) : Prop :=
  us.map (·.path) <+: results.map (·.path) ∧ us.map (·.path) ≠ results.map (·.path)

variable {loaded : List LoadedFile} {results merged : List FileFunctions} {u : SourceUnit}
  {us : List SourceUnit}

theorem units_unit : units (.unit u :: loaded) = u :: units loaded := rfl

theorem units_failed (f : FileFunctions) : units (.failed f :: loaded) = units loaded := rfl

theorem isMerged_nil_iff : IsMerged [] results merged ↔ results = [] ∧ merged = [] := by
  constructor
  · rintro ⟨hlength, -, rfl⟩
    exact ⟨rfl, List.length_eq_zero_iff.1 hlength⟩
  · rintro ⟨rfl, rfl⟩
    exact ⟨rfl, by simp, rfl⟩

theorem isMerged_failed_iff {f : FileFunctions} : IsMerged (.failed f :: loaded) results merged ↔
    ∃ rest, merged = f :: rest ∧ IsMerged loaded results rest := by
  constructor
  · rintro ⟨hlength, hkept, hunits⟩
    match merged, hlength with
    | r :: rest, hlength =>
      obtain rfl : r = f := by simpa using hkept 0 f rfl
      exact ⟨rest, rfl, by simpa using hlength, fun i g hg => hkept (i + 1) g hg, hunits⟩
  · rintro ⟨rest, rfl, hlength, hkept, hunits⟩
    refine ⟨by simpa using hlength, fun i g hg => ?_, hunits⟩
    cases i with
    | zero =>
      cases hg
      rfl
    | succ i => exact hkept i g hg

theorem isMerged_unit_iff : IsMerged (.unit u :: loaded) results merged ↔
    ∃ r restResults rest, results = r :: restResults ∧ merged = r :: rest ∧
      IsMerged loaded restResults rest := by
  constructor
  · rintro ⟨hlength, hkept, rfl⟩
    match merged, hlength with
    | r :: rest, hlength =>
      exact ⟨r, _, rest, rfl, rfl, by simpa using hlength, fun i g hg => hkept (i + 1) g hg, rfl⟩
  · rintro ⟨r, _, rest, rfl, rfl, hlength, hkept, rfl⟩
    refine ⟨by simpa using hlength, fun i g hg => ?_, rfl⟩
    cases i with
    | zero => cases hg
    | succ i => exact hkept i g hg

theorem not_firstUnmatched_nil : ¬ FirstUnmatched [] results u := by
  rintro ⟨before, after, hsplit, -⟩
  simp at hsplit

theorem firstUnmatched_of_none {v : SourceUnit} : FirstUnmatched (v :: us) [] u ↔ u = v := by
  constructor
  · rintro ⟨before, after, hsplit, hbefore, -⟩
    obtain rfl : before = [] := by simpa using hbefore.symm
    exact (List.cons.inj hsplit).1.symm
  · rintro rfl
    exact ⟨[], us, rfl, rfl, by simp⟩

theorem firstUnmatched_of_other {v : SourceUnit} {r : FileFunctions} (h : r.path ≠ v.path) :
    FirstUnmatched (v :: us) (r :: results) u ↔ u = v := by
  constructor
  · rintro ⟨before, after, hsplit, hbefore, -⟩
    cases before with
    | nil => exact (List.cons.inj hsplit).1.symm
    | cons w before =>
      obtain ⟨rfl, -⟩ := List.cons.inj hsplit
      exact absurd (List.cons.inj hbefore).1 h
  · rintro rfl
    exact ⟨[], us, rfl, rfl, by simpa using h⟩

theorem firstUnmatched_cons {v : SourceUnit} {r : FileFunctions} (h : r.path = v.path) :
    FirstUnmatched (v :: us) (r :: results) u ↔ FirstUnmatched us results u := by
  constructor
  · rintro ⟨before, after, hsplit, hbefore, hnot⟩
    cases before with
    | nil =>
      obtain ⟨rfl, -⟩ := List.cons.inj hsplit
      exact absurd (congrArg some h) hnot
    | cons w before =>
      obtain ⟨rfl, rfl⟩ := List.cons.inj hsplit
      exact ⟨before, after, rfl, (List.cons.inj hbefore).2, hnot⟩
  · rintro ⟨before, after, rfl, hbefore, hnot⟩
    exact ⟨v :: before, after, rfl, by simp [h, hbefore], hnot⟩

theorem exceeds_cons {v : SourceUnit} {r : FileFunctions} (h : r.path = v.path) :
    Exceeds (r :: results) (v :: us) ↔ Exceeds results us := by
  simp [Exceeds, List.cons_prefix_cons, h]

/-- Merging ends well with what is merged, if the results are those of the units. -/
theorem merge_eq_ok_iff : merge loaded results = .ok merged ↔
    results.map (·.path) = (units loaded).map (·.path) ∧ IsMerged loaded results merged := by
  fun_induction merge loaded results generalizing merged with
  | case1 => simp [isMerged_nil_iff, units, eq_comm]
  | case2 r results => simp [isMerged_nil_iff]
  | case3 f loaded results ih =>
    rw [map_eq_ok_iff, isMerged_failed_iff, units_failed]
    simp only [ih]
    constructor
    · rintro ⟨rest, ⟨hpaths, hrest⟩, rfl⟩
      exact ⟨hpaths, rest, rfl, hrest⟩
    · rintro ⟨hpaths, rest, rfl, hrest⟩
      exact ⟨rest, ⟨hpaths, hrest⟩, rfl⟩
  | case4 u loaded => simp [units_unit]
  | case5 u loaded r results h ih =>
    rw [map_eq_ok_iff, isMerged_unit_iff, units_unit]
    simp only [ih, List.map_cons, h, List.cons.injEq, true_and]
    constructor
    · rintro ⟨rest, ⟨hpaths, hrest⟩, rfl⟩
      exact ⟨hpaths, r, results, rest, ⟨rfl, rfl⟩, rfl, hrest⟩
    · rintro ⟨hpaths, _, _, rest, ⟨rfl, rfl⟩, rfl, hrest⟩
      exact ⟨rest, ⟨hpaths, hrest⟩, rfl⟩
  | case6 u loaded r results h => simp [units_unit, h]

/-- Merging fails at the first unit without a result, or for the results that are left over. -/
theorem merge_eq_error_iff {e : MergeError} : merge loaded results = .error e ↔
    (∃ u, FirstUnmatched (units loaded) results u ∧ e = .missingResult u.path) ∨
      Exceeds results (units loaded) ∧ e = .surplus := by
  fun_induction merge loaded results with
  | case1 => simp [units, not_firstUnmatched_nil, Exceeds]
  | case2 r results =>
    have hmore : Exceeds (r :: results) (units []) := ⟨List.nil_prefix, by simp [units]⟩
    have hnone : ∀ u, ¬ FirstUnmatched (units []) (r :: results) u := fun u => not_firstUnmatched_nil
    simp [hmore, hnone, eq_comm]
  | case3 f loaded results ih => rw [map_eq_error_iff, ih, units_failed]
  | case4 u loaded =>
    have hnone : ¬ Exceeds [] (u :: units loaded) := fun h => by simpa using h.1
    simp [units_unit, firstUnmatched_of_none, hnone, eq_comm]
  | case5 u loaded r results h ih =>
    rw [map_eq_error_iff, ih, units_unit, exceeds_cons h]
    simp only [firstUnmatched_cons h]
  | case6 u loaded r results h =>
    have hnone : ¬ Exceeds (r :: results) (u :: units loaded) := by
      rintro ⟨hpart, -⟩
      exact h (List.cons_prefix_cons.1 hpart).1.symm
    simp [units_unit, firstUnmatched_of_other h, hnone, eq_comm]

/-- For all files that were loaded and all results: merging ends well if and only if the paths of
the results are those of the units, in order and as often. Then there is one entry for each file,
the files that could not be read keep their places, and the other entries are the results in their
order. Otherwise the message names the first unit whose result is missing or has another path, or
says that there are more results than units. -/
theorem merge_exact (loaded : List LoadedFile) (results : List FileFunctions) :
    ((∃ merged, merge loaded results = .ok merged) ↔
      results.map (·.path) = (units loaded).map (·.path)) ∧
    (∀ merged, merge loaded results = .ok merged ↔
      results.map (·.path) = (units loaded).map (·.path) ∧ IsMerged loaded results merged) ∧
    ∀ message, (merge loaded results).mapError MergeError.message = .error message ↔
      (∃ u, FirstUnmatched (units loaded) results u ∧
        message = ("No analysis result for " : Text) ++ u.path) ∨
      Exceeds results (units loaded) ∧ message = "More analysis results than loaded units" := by
  refine ⟨⟨?_, fun hpaths => ?_⟩, fun merged => merge_eq_ok_iff, fun message => ?_⟩
  · rintro ⟨merged, h⟩
    exact (merge_eq_ok_iff.1 h).1
  · cases h : merge loaded results with
    | ok merged => exact ⟨merged, rfl⟩
    | error e =>
      rcases merge_eq_error_iff.1 h with ⟨u, ⟨before, after, hsplit, -, hnot⟩, -⟩ | ⟨⟨-, hne⟩, -⟩
      · refine absurd ?_ hnot
        rw [← List.getElem?_map, hpaths, hsplit]
        simp
      · exact absurd hpaths.symm hne
  · have hmessage : (merge loaded results).mapError MergeError.message = .error message ↔
        ∃ e, merge loaded results = .error e ∧ e.message = message := by
      cases merge loaded results <;> simp [Except.mapError]
    rw [hmessage]
    simp only [merge_eq_error_iff]
    constructor
    · rintro ⟨e, ⟨u, hu, rfl⟩ | ⟨hmore, rfl⟩, rfl⟩
      · exact .inl ⟨u, hu, rfl⟩
      · exact .inr ⟨hmore, rfl⟩
    · rintro (⟨u, hu, rfl⟩ | ⟨hmore, rfl⟩)
      · exact ⟨_, .inl ⟨u, hu, rfl⟩, rfl⟩
      · exact ⟨_, .inr ⟨hmore, rfl⟩, rfl⟩

end FunctionInventory.Loading
