import FunctionInventory.Nesting
import Mathlib.Algebra.Order.BigOperators.Group.List
import Mathlib.Algebra.Order.Group.Nat
import Mathlib.Data.List.Basic
import Mathlib.Data.List.Infix
import Mathlib.Data.List.Pairwise

/-!
# Places of nested things

A nested thing is told from all others by its path, the numbers of the children that lead
to it. Going through things lists every path exactly once, in lexicographic order: outer
things first, siblings in order.
-/
namespace FunctionInventory.Nesting

variable {α : Type} (t : Nesting α)

theorem le_totalOf_of_mem (size : α → Nat) {a : α} {as : List α} (h : a ∈ as) :
    size a ≤ totalOf size as := by
  induction h with
  | head as => simp
  | tail b _ ih =>
    rw [totalOf_cons]
    omega

/-- Induction over nested things, from the inside out. -/
theorem nestedInduction {motive : α → Prop}
    (step : ∀ a, (∀ c ∈ t.children a, motive c) → motive a) (a : α) : motive a := by
  obtain ⟨size, hsize⟩ := t.shrinks
  induction h : size a using Nat.strong_induction_on generalizing a with
  | _ n ih =>
    apply step
    intro c hc
    have hle := le_totalOf_of_mem size hc
    exact ih (size c) (by have := hsize a; omega) c rfl

/-- What a path leads to. -/
def follow? : α → List Nat → Option α
  | a, [] => some a
  | a, i :: path => (t.children a)[i]?.bind fun c => follow? c path

@[simp] theorem follow?_nil (a : α) : t.follow? a [] = some a := rfl

theorem follow?_cons (a : α) (i : Nat) (path : List Nat) :
    t.follow? a (i :: path) = (t.children a)[i]?.bind fun c => t.follow? c path := rfl

theorem follow?_append (a : α) (path rest : List Nat) :
    t.follow? a (path ++ rest) = (t.follow? a path).bind fun b => t.follow? b rest := by
  induction path generalizing a with
  | nil => simp
  | cons i path ih =>
    rw [List.cons_append, follow?_cons, follow?_cons, Option.bind_assoc]
    congr 1
    funext c
    exact ih c

/-- Siblings with their paths, numbered from `i` on below `path`. -/
def numbered (path : List Nat) (i : Nat) (as : List α) : List (List Nat × α) :=
  (as.zipIdx i).map fun e => (path ++ [e.2], e.1)

@[simp] theorem numbered_nil (path : List Nat) (i : Nat) :
    numbered path i ([] : List α) = [] := rfl

@[simp] theorem numbered_cons (path : List Nat) (i : Nat) (a : α) (as : List α) :
    numbered path i (a :: as) = (path ++ [i], a) :: numbered path (i + 1) as := rfl

@[simp] theorem map_snd_numbered (path : List Nat) (i : Nat) (as : List α) :
    (numbered path i as).map Prod.snd = as := by
  induction as generalizing i with
  | nil => rfl
  | cons a as ih => simp [ih]

theorem numbered_append (path : List Nat) (i : Nat) (as bs : List α) :
    numbered path i (as ++ bs) = numbered path i as ++ numbered path (i + as.length) bs := by
  induction as generalizing i with
  | nil => simp
  | cons a as ih => simp [ih, Nat.add_assoc, Nat.add_comm 1]

theorem mem_numbered {path ρ : List Nat} {i : Nat} {as : List α} {b : α} :
    (ρ, b) ∈ numbered path i as ↔ ∃ j, as[j]? = some b ∧ ρ = path ++ [i + j] := by
  induction as generalizing i with
  | nil => simp
  | cons a as ih =>
    rw [numbered_cons, List.mem_cons, ih]
    constructor
    · rintro (h | ⟨j, hj, rfl⟩)
      · obtain ⟨rfl, rfl⟩ := Prod.mk.inj h
        exact ⟨0, by simp⟩
      · exact ⟨j + 1, by simpa using hj, by simp; omega⟩
    · rintro ⟨j, hj, rfl⟩
      cases j with
      | zero => left; simp at hj; simp [hj]
      | succ j => exact Or.inr ⟨j, by simpa using hj, by simp; omega⟩

/-- Things with their paths are nested like the things. -/
def placed : Nesting (List Nat × α) where
  children e := numbered e.1 0 (t.children e.2)
  shrinks := by
    obtain ⟨size, hsize⟩ := t.shrinks
    refine ⟨fun e => size e.2, fun e => ?_⟩
    rw [← totalOf_map size Prod.snd, map_snd_numbered]
    exact hsize e.2

/-- The things in a row of siblings with their paths, outer things first. -/
def places (path : List Nat) (i : Nat) (as : List α) : List (List Nat × α) :=
  (numbered path i as).flatMap t.placed.preorder

@[simp] theorem places_nil (path : List Nat) (i : Nat) : t.places path i [] = [] := rfl

theorem placed_preorder_eq (path : List Nat) (a : α) :
    t.placed.preorder (path, a) = (path, a) :: t.places path 0 (t.children a) :=
  t.placed.preorder_eq (path, a)

theorem places_cons (path : List Nat) (i : Nat) (a : α) (as : List α) :
    t.places path i (a :: as) =
      (path ++ [i], a) ::
        (t.places (path ++ [i]) 0 (t.children a) ++ t.places path (i + 1) as) := by
  rw [places, numbered_cons, List.flatMap_cons, placed_preorder_eq]
  rfl

theorem places_append (path : List Nat) (i : Nat) (as bs : List α) :
    t.places path i (as ++ bs) = t.places path i as ++ t.places path (i + as.length) bs := by
  rw [places, numbered_append, List.flatMap_append]
  rfl

theorem map_snd_placed_preorder (path : List Nat) (a : α) :
    (t.placed.preorder (path, a)).map Prod.snd = t.preorder a := by
  induction a using t.nestedInduction generalizing path with
  | step a ih =>
    rw [placed_preorder_eq, preorder_eq, List.map_cons, places, List.map_flatMap]
    congr 1
    have h : ∀ (i : Nat) (as : List α), (∀ c ∈ as, c ∈ t.children a) →
        (numbered path i as).flatMap (fun e => (t.placed.preorder e).map Prod.snd) =
          as.flatMap t.preorder := by
      intro i as hsub
      induction as generalizing i with
      | nil => rfl
      | cons c as ihs =>
        rw [numbered_cons, List.flatMap_cons, List.flatMap_cons, ih c (hsub c List.mem_cons_self),
          ihs (i + 1) fun d hd => hsub d (List.mem_cons_of_mem c hd)]
    exact h 0 (t.children a) fun _ hc => hc

theorem map_snd_places (path : List Nat) (i : Nat) (as : List α) :
    (t.places path i as).map Prod.snd = as.flatMap t.preorder := by
  induction as generalizing i with
  | nil => rfl
  | cons a as ih =>
    rw [places, numbered_cons, List.flatMap_cons, List.map_append, map_snd_placed_preorder]
    rw [List.flatMap_cons]
    exact congrArg _ (ih (i + 1))

/-- Going through a thing meets exactly what the paths lead to. -/
theorem mem_placed_preorder {path ρ : List Nat} {a b : α} :
    (ρ, b) ∈ t.placed.preorder (path, a) ↔ ∃ σ, ρ = path ++ σ ∧ t.follow? a σ = some b := by
  induction a using t.nestedInduction generalizing path with
  | step a ih =>
    rw [placed_preorder_eq, List.mem_cons, places, List.mem_flatMap]
    constructor
    · rintro (h | ⟨⟨π, c⟩, hc, hb⟩)
      · obtain ⟨rfl, rfl⟩ := Prod.mk.inj h
        exact ⟨[], by simp⟩
      · obtain ⟨j, hj, rfl⟩ := mem_numbered.1 hc
        obtain ⟨σ, rfl, hσ⟩ := (ih c (List.mem_of_getElem? hj)).1 hb
        exact ⟨j :: σ, by simp, by simp [follow?_cons, hj, hσ]⟩
    · rintro ⟨σ, rfl, hσ⟩
      cases σ with
      | nil => left; simp_all
      | cons j σ =>
        obtain ⟨c, hj, hc⟩ := Option.bind_eq_some_iff.1 hσ
        refine Or.inr ⟨(path ++ [j], c), mem_numbered.2 ⟨j, hj, by simp⟩, ?_⟩
        exact (ih c (List.mem_of_getElem? hj)).2 ⟨σ, by simp, hc⟩

theorem mem_preorder {a b : α} : b ∈ t.preorder a ↔ ∃ path, t.follow? a path = some b := by
  rw [← t.map_snd_placed_preorder [], List.mem_map]
  constructor
  · rintro ⟨⟨ρ, c⟩, hc, rfl⟩
    obtain ⟨σ, -, hσ⟩ := t.mem_placed_preorder.1 hc
    exact ⟨σ, hσ⟩
  · rintro ⟨path, hb⟩
    exact ⟨(path, b), t.mem_placed_preorder.2 ⟨path, rfl, hb⟩, rfl⟩

/-- What the numbers lead to from a row of siblings. -/
def inRow? (as : List α) : List Nat → Option α
  | [] => none
  | i :: path => as[i]?.bind fun a => t.follow? a path

theorem inRow?_append {as : List α} {path : List Nat} (h : path ≠ []) (rest : List Nat) :
    t.inRow? as (path ++ rest) = (t.inRow? as path).bind fun a => t.follow? a rest := by
  cases path with
  | nil => contradiction
  | cons i path =>
    rw [List.cons_append, inRow?, inRow?, Option.bind_assoc]
    simp only [follow?_append]

theorem mem_places {path ρ : List Nat} {i : Nat} {as : List α} {b : α} :
    (ρ, b) ∈ t.places path i as ↔
      ∃ j σ, ρ = path ++ (i + j) :: σ ∧ t.inRow? as (j :: σ) = some b := by
  rw [places, List.mem_flatMap]
  constructor
  · rintro ⟨⟨π, a⟩, ha, hb⟩
    obtain ⟨j, hj, rfl⟩ := mem_numbered.1 ha
    obtain ⟨σ, rfl, hσ⟩ := t.mem_placed_preorder.1 hb
    exact ⟨j, σ, by simp, by simp [inRow?, hj, hσ]⟩
  · rintro ⟨j, σ, rfl, hσ⟩
    obtain ⟨a, hj, ha⟩ := Option.bind_eq_some_iff.1 hσ
    refine ⟨(path ++ [i + j], a), mem_numbered.2 ⟨j, hj, rfl⟩, ?_⟩
    exact t.mem_placed_preorder.2 ⟨σ, by simp, ha⟩

theorem mem_places_zero {ρ : List Nat} {as : List α} {b : α} :
    (ρ, b) ∈ t.places [] 0 as ↔ t.inRow? as ρ = some b := by
  rw [mem_places]
  constructor
  · rintro ⟨j, σ, rfl, h⟩
    simpa using h
  · intro h
    cases ρ with
    | nil => simp [inRow?] at h
    | cons j σ => exact ⟨j, σ, by simp, h⟩

theorem path_lt_append (path : List Nat) (i : Nat) (σ : List Nat) : path < path ++ i :: σ := by
  have h : path ++ [] < path ++ i :: σ := List.append_left_lt (List.nil_lt_cons i σ)
  rwa [List.append_nil] at h

theorem append_lt_append_of_lt (path : List Nat) {i j : Nat} (hij : i < j) (σ τ : List Nat) :
    path ++ i :: σ < path ++ j :: τ :=
  List.append_left_lt (List.cons_lt_cons_iff.2 (Or.inl hij))

theorem pairwise_numbered (path : List Nat) (i : Nat) (as : List α) :
    (numbered path i as).Pairwise fun e f =>
      ∃ j k, j < k ∧ e.1 = path ++ [j] ∧ f.1 = path ++ [k] := by
  induction as generalizing i with
  | nil => simp
  | cons a as ih =>
    rw [numbered_cons, List.pairwise_cons]
    refine ⟨?_, ih (i + 1)⟩
    rintro ⟨ρ, b⟩ hb
    obtain ⟨j, -, rfl⟩ := mem_numbered.1 hb
    exact ⟨i, i + 1 + j, by omega, rfl, rfl⟩

/-- Siblings are met in order, each with all that is nested in it. -/
theorem pairwise_numbered_flatMap {path : List Nat} {i : Nat} {as : List α}
    (h : ∀ e ∈ numbered path i as, ((t.placed.preorder e).map Prod.fst).Pairwise (· < ·)) :
    ((t.places path i as).map Prod.fst).Pairwise (· < ·) := by
  rw [places, List.map_flatMap, List.pairwise_flatMap]
  refine ⟨h, (pairwise_numbered path i as).imp ?_⟩
  rintro ⟨_, a⟩ ⟨_, b⟩ ⟨j, k, hjk, rfl, rfl⟩ ρ hρ τ hτ
  obtain ⟨⟨_, c⟩, hc, rfl⟩ := List.mem_map.1 hρ
  obtain ⟨⟨_, d⟩, hd, rfl⟩ := List.mem_map.1 hτ
  obtain ⟨σ, rfl, -⟩ := t.mem_placed_preorder.1 hc
  obtain ⟨σ', rfl, -⟩ := t.mem_placed_preorder.1 hd
  rw [List.append_assoc, List.append_assoc]
  exact append_lt_append_of_lt path hjk σ σ'

theorem pairwise_placed_preorder (path : List Nat) (a : α) :
    ((t.placed.preorder (path, a)).map Prod.fst).Pairwise (· < ·) := by
  induction a using t.nestedInduction generalizing path with
  | step a ih =>
    rw [placed_preorder_eq, List.map_cons, List.pairwise_cons]
    constructor
    · intro ρ hρ
      obtain ⟨⟨_, c⟩, hc, rfl⟩ := List.mem_map.1 hρ
      obtain ⟨j, σ, rfl, -⟩ := t.mem_places.1 hc
      exact path_lt_append path (0 + j) σ
    · apply t.pairwise_numbered_flatMap
      rintro ⟨ρ, c⟩ hc
      obtain ⟨j, hj, -⟩ := mem_numbered.1 hc
      exact ih c (List.mem_of_getElem? hj) ρ

/-- Paths are met in lexicographic order. -/
theorem pairwise_places (path : List Nat) (i : Nat) (as : List α) :
    ((t.places path i as).map Prod.fst).Pairwise (· < ·) :=
  t.pairwise_numbered_flatMap fun e _ => t.pairwise_placed_preorder e.1 e.2

end FunctionInventory.Nesting
