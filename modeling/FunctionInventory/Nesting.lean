/-!
# Going through nested things

A thing holds things of its own kind, each smaller than itself. They are gone through by
a stack: a thing that is taken off the top leaves what it holds in its place, so that it
comes before what is nested in it, and siblings come in order.
-/
namespace FunctionInventory

/-- The sizes of things, added up. -/
def totalOf (size : α → Nat) : List α → Nat
  | [] => 0
  | a :: as => size a + totalOf size as

@[simp] theorem totalOf_nil (size : α → Nat) : totalOf size [] = 0 := rfl

@[simp] theorem totalOf_cons (size : α → Nat) (a : α) (as : List α) :
    totalOf size (a :: as) = size a + totalOf size as := rfl

@[simp] theorem totalOf_append (size : α → Nat) (as bs : List α) :
    totalOf size (as ++ bs) = totalOf size as + totalOf size bs := by
  induction as with
  | nil => simp
  | cons a as ih => simp [ih, Nat.add_assoc]

@[simp] theorem totalOf_map (size : β → Nat) (f : α → β) (as : List α) :
    totalOf size (as.map f) = totalOf (fun a => size (f a)) as := by
  induction as with
  | nil => rfl
  | cons a as ih => simp [ih]

theorem totalOf_filter_le (size : α → Nat) (q : α → Bool) (as : List α) :
    totalOf size (as.filter q) ≤ totalOf size as := by
  induction as with
  | nil => simp
  | cons a as ih =>
    simp only [List.filter_cons]
    split <;> simp only [totalOf_cons] <;> omega

theorem totalOf_sizeOf_le [SizeOf α] (as : List α) : totalOf sizeOf as ≤ sizeOf as := by
  induction as with
  | nil => simp
  | cons a as ih =>
    simp only [totalOf_cons, List.cons.sizeOf_spec]
    omega

/-- How things of a kind are nested. -/
structure Nesting (α : Type) where
  children : α → List α
  shrinks : ∃ size : α → Nat, ∀ a, totalOf size (children a) < size a

namespace Nesting

/-- Goes through the things on a stack, the top first. `seen` are those that were taken
off before, the last one first. -/
def unstack (t : Nesting α) (stack seen : List α) : List α :=
  match stack with
  | [] => seen.reverse
  | a :: rest => unstack t (t.children a ++ rest) (a :: seen)
termination_by totalOf t.shrinks.choose stack
decreasing_by
  have := t.shrinks.choose_spec a
  simp only [totalOf_append, totalOf_cons]
  omega

/-- A thing and all that is nested in it, outer things first. -/
def preorder (t : Nesting α) (a : α) : List α := t.unstack [a] []

@[simp] theorem unstack_nil (t : Nesting α) (seen : List α) : t.unstack [] seen = seen.reverse := by
  rw [unstack]

theorem unstack_cons (t : Nesting α) (a : α) (rest seen : List α) :
    t.unstack (a :: rest) seen = t.unstack (t.children a ++ rest) (a :: seen) := by
  rw [unstack]

/-- What is on top of the stack is gone through before the rest is touched. -/
theorem unstack_append (t : Nesting α) (stack rest seen : List α) :
    t.unstack (stack ++ rest) seen = t.unstack rest ((t.unstack stack []).reverse ++ seen) := by
  match stack with
  | [] => simp
  | a :: stack =>
    have hseen : t.unstack (t.children a ++ stack) [a] =
        a :: t.unstack (t.children a ++ stack) [] := by
      have h := unstack_append t (t.children a ++ stack) [] [a]
      simpa using h
    have h := unstack_append t (t.children a ++ stack) rest (a :: seen)
    rw [List.cons_append, unstack_cons, ← List.append_assoc, h, unstack_cons, hseen]
    simp
termination_by totalOf t.shrinks.choose stack
decreasing_by
  all_goals
    have := t.shrinks.choose_spec a
    simp only [totalOf_append, totalOf_cons]
    omega

theorem unstack_eq_flatMap (t : Nesting α) (stack : List α) :
    t.unstack stack [] = stack.flatMap t.preorder := by
  induction stack with
  | nil => simp
  | cons a stack ih =>
    have h := t.unstack_append [a] stack []
    have h' := t.unstack_append stack [] ((t.preorder a).reverse)
    rw [List.append_nil, unstack_nil, ih] at h'
    rw [List.singleton_append, List.append_nil] at h
    rw [h, List.flatMap_cons]
    simpa [preorder] using h'

/-- The recursive form of going through a thing. -/
theorem preorder_eq (t : Nesting α) (a : α) :
    t.preorder a = a :: (t.children a).flatMap t.preorder := by
  have h := t.unstack_append (t.children a) [] [a]
  rw [preorder, unstack_cons, h, unstack_nil, unstack_eq_flatMap]
  simp

end Nesting

end FunctionInventory
