import FunctionInventory.Proofs.Outcomes
import FunctionInventory.Proofs.Places
import FunctionInventory.Resolution

/-!
# Resolved forests

Resolving changes the calls of each record and nothing else, so that it goes along with
walking through a forest. It has a result for every forest that is not nested deeper than it goes.
-/
namespace FunctionInventory.FunctionRecord

section

variable (known : Text → Bool)

theorem filterAll_eq_map (rs : List FunctionRecord) :
    filterAll known rs = rs.map (filterCalls known) := by
  induction rs with
  | nil => rw [filterAll]; rfl
  | cons r rs ih => rw [filterAll, ih]; rfl

@[simp] theorem inner_filterCalls (r : FunctionRecord) :
    (r.filterCalls known).inner = filterAll known r.inner := by
  cases r
  rw [filterCalls]

@[simp] theorem calls_filterCalls (r : FunctionRecord) :
    (r.filterCalls known).calls = r.calls.filter known := by
  cases r
  rw [filterCalls]

@[simp] theorem name_filterCalls (r : FunctionRecord) : (r.filterCalls known).name = r.name := by
  cases r
  rw [filterCalls]

theorem walk_filterCalls (r : FunctionRecord) :
    (r.filterCalls known).walk = r.walk.map (filterCalls known) := by
  induction r using nesting.nestedInduction with
  | step r ih =>
    have hinner : walkAll (r.inner.map (filterCalls known)) =
        (walkAll r.inner).map (filterCalls known) := by
      rw [walkAll, walkAll, List.flatMap_map, List.map_flatMap]
      exact List.flatMap_congr ih
    rw [walk_eq, walk_eq, inner_filterCalls, filterAll_eq_map, hinner]
    rfl

/-- The records of a filtered forest are the filtered records. -/
theorem walkAll_filterAll (rs : List FunctionRecord) :
    walkAll (filterAll known rs) = (walkAll rs).map (filterCalls known) := by
  rw [filterAll_eq_map, walkAll, walkAll, List.flatMap_map, List.map_flatMap]
  exact List.flatMap_congr fun r _ => walk_filterCalls known r

mutual

/-- A filter leaves the records where they are nested. -/
@[simp] theorem depth_filterCalls : (r : FunctionRecord) → (r.filterCalls known).depth = r.depth
  | ⟨_, _, _, _, _, inner, _⟩ => by
    have hinner := depthAll_filterAll inner
    rw [depth_eq, depth_eq, inner_filterCalls, hinner]

@[simp] theorem depthAll_filterAll : (rs : List FunctionRecord) →
    depthAll (filterAll known rs) = depthAll rs
  | [] => by rw [filterAll]
  | r :: rs => by
    rw [filterAll, depthAll_cons, depthAll_cons, depth_filterCalls r, depthAll_filterAll rs]

end

end

variable {limit : Nat} {known : Text → Bool} {r s : FunctionRecord} {rs ss : List FunctionRecord}

theorem resolve_eq_ok_iff :
    resolve limit known r = .ok s ↔ r.depth ≤ limit ∧ s = r.filterCalls known := by
  unfold resolve
  split <;> simp_all [eq_comm]

theorem resolveAll_eq_ok (known : Text → Bool) (h : depthAll rs ≤ limit) :
    resolveAll limit known rs = .ok (filterAll known rs) := by
  rw [resolveAll, filterAll_eq_map, mapM_eq_ok_iff, List.forall₂_map_right_iff, List.forall₂_same]
  exact fun r hr => resolve_eq_ok_iff.2 ⟨depthAll_le_iff.1 h r hr, rfl⟩

theorem resolveAll_eq_error (known : Text → Bool) (h : limit < depthAll rs) :
    resolveAll limit known rs = .error .resolving := by
  cases hresolved : resolveAll limit known rs with
  | error e =>
    obtain ⟨r, -, hr⟩ := exists_mem_of_mapM_eq_error hresolved
    unfold resolve at hr
    split at hr <;> cases hr
    rfl
  | ok ss =>
    have hdepth : depthAll rs ≤ limit := by
      rw [depthAll_le_iff]
      intro r hr
      obtain ⟨s, hs⟩ := exists_ok_of_mem hresolved hr
      exact (resolve_eq_ok_iff.1 hs).1
    omega

theorem resolveAll_eq_ok_iff :
    resolveAll limit known rs = .ok ss ↔ depthAll rs ≤ limit ∧ ss = filterAll known rs := by
  rcases Nat.lt_or_ge limit (depthAll rs) with h | h
  · simp [resolveAll_eq_error known h, Nat.not_le_of_gt h]
  · simp [resolveAll_eq_ok known h, h, eq_comm]

end FunctionInventory.FunctionRecord
