import FunctionInventory.Log
import Mathlib.Data.List.Forall2

/-!
# Outcomes

What is known of the parts of a computation that may fail, from its outcome, and of a
computation that writes to the log, whatever the log holds.
-/
namespace FunctionInventory

variable {ε ε' α β : Type}

/-- A computation in two steps has a result if and only if both steps have. -/
theorem bind_eq_ok_iff {x : Except ε α} {f : α → Except ε β} {b : β} :
    x >>= f = .ok b ↔ ∃ a, x = .ok a ∧ f a = .ok b := by
  cases x <;> simp [bind, Except.bind]

theorem exists_bind_eq_ok {x : Except ε α} {f : α → Except ε β} (hx : ∃ a, x = .ok a)
    (hf : ∀ a, ∃ b, f a = .ok b) : ∃ b, x >>= f = .ok b := by
  obtain ⟨a, ha⟩ := hx
  obtain ⟨b, hb⟩ := hf a
  exact ⟨b, bind_eq_ok_iff.2 ⟨a, ha, hb⟩⟩

theorem map_eq_ok_iff {f : α → β} {x : Except ε α} {b : β} :
    x.map f = .ok b ↔ ∃ a, x = .ok a ∧ f a = b := by
  cases x <;> simp [Except.map]

theorem map_eq_error_iff {f : α → β} {x : Except ε α} {e : ε} :
    x.map f = .error e ↔ x = .error e := by
  cases x <;> simp [Except.map]

theorem mapError_eq_ok_iff {f : ε → ε'} {x : Except ε α} {a : α} :
    x.mapError f = .ok a ↔ x = .ok a := by
  cases x <;> simp [Except.mapError]

theorem mapError_eq_error_iff {f : ε → ε'} {x : Except ε α} {e : ε'} :
    x.mapError f = .error e ↔ ∃ e', x = .error e' ∧ f e' = e := by
  cases x <;> simp [Except.mapError]

theorem exists_eq_ok_of_isOk {x : Except ε α} (h : x.isOk = true) : ∃ a, x = .ok a := by
  cases x with
  | error e => cases h
  | ok a => exact ⟨a, rfl⟩

theorem map_bind_eq_map_bind {x : Except ε α} {g : α → α} {f f' : α → Except ε α}
    (h : ∀ a, f' (g a) = (f a).map g) : x.map g >>= f' = (x >>= f).map g := by
  cases x with
  | error e => rfl
  | ok a => exact h a

/-- A computation for each item of a list has results if and only if each of them has. -/
theorem mapM_eq_ok_iff {f : α → Except ε β} {as : List α} {bs : List β} :
    as.mapM f = .ok bs ↔ List.Forall₂ (fun a b => f a = .ok b) as bs := by
  induction as generalizing bs with
  | nil =>
    rw [List.mapM_nil, List.forall₂_nil_left_iff]
    exact ⟨fun h => by cases h; rfl, fun h => by rw [h]; rfl⟩
  | cons a as ih =>
    rw [List.mapM_cons, bind_eq_ok_iff, List.forall₂_cons_left_iff]
    constructor
    · rintro ⟨b, hb, h⟩
      obtain ⟨bs', hbs, h⟩ := bind_eq_ok_iff.1 h
      cases h
      exact ⟨b, bs', hb, ih.1 hbs, rfl⟩
    · rintro ⟨b, bs', hb, hbs, rfl⟩
      exact ⟨b, hb, bind_eq_ok_iff.2 ⟨bs', ih.2 hbs, rfl⟩⟩

theorem mapM_eq_some_iff {f : α → Option β} {as : List α} {bs : List β} :
    as.mapM f = some bs ↔ List.Forall₂ (fun a b => f a = some b) as bs := by
  induction as generalizing bs with
  | nil => simp [eq_comm]
  | cons a as ih =>
    rw [List.mapM_cons, List.forall₂_cons_left_iff]
    constructor
    · intro h
      obtain ⟨b, hb, h⟩ := Option.bind_eq_some_iff.1 h
      obtain ⟨bs', hbs, h⟩ := Option.bind_eq_some_iff.1 h
      cases h
      exact ⟨b, bs', hb, ih.1 hbs, rfl⟩
    · rintro ⟨b, bs', hb, hbs, rfl⟩
      rw [hb, ih.2 hbs]
      rfl

theorem mem_of_mapM_eq_ok {f : α → Except ε β} {as : List α} {bs : List β}
    (h : as.mapM f = .ok bs) (b : β) : b ∈ bs ↔ ∃ a ∈ as, f a = .ok b := by
  rw [mapM_eq_ok_iff] at h
  induction h with
  | nil => simp
  | cons hab _ ih =>
    rw [List.mem_cons, ih, List.exists_mem_cons_iff, hab]
    simp [eq_comm]

theorem exists_ok_of_mem {f : α → Except ε β} {as : List α} {bs : List β} (h : as.mapM f = .ok bs)
    {a : α} (ha : a ∈ as) : ∃ b, f a = .ok b := by
  rw [mapM_eq_ok_iff] at h
  induction h with
  | nil => cases ha
  | @cons a' b _ _ hab _ ih =>
    rcases List.mem_cons.1 ha with rfl | ha
    · exact ⟨b, hab⟩
    · exact ih ha

theorem exists_mapM_eq_ok {f : α → Except ε β} {as : List α} (h : ∀ a ∈ as, ∃ b, f a = .ok b) :
    ∃ bs, as.mapM f = .ok bs := by
  induction as with
  | nil => exact ⟨[], rfl⟩
  | cons a as ih =>
    obtain ⟨b, hb⟩ := h a List.mem_cons_self
    obtain ⟨bs, hbs⟩ := ih fun a' ha' => h a' (List.mem_cons_of_mem a ha')
    exact ⟨b :: bs, by rw [List.mapM_cons, hb, hbs]; rfl⟩

theorem exists_mem_of_mapM_eq_error {f : α → Except ε β} {as : List α} {e : ε}
    (h : as.mapM f = .error e) : ∃ a ∈ as, f a = .error e := by
  induction as with
  | nil => cases h
  | cons a as ih =>
    rw [List.exists_mem_cons_iff]
    rw [List.mapM_cons] at h
    cases ha : f a with
    | error e' =>
      rw [ha] at h
      cases h
      exact .inl rfl
    | ok b =>
      rw [ha] at h
      cases has : as.mapM f with
      | error e' =>
        rw [has] at h
        cases h
        exact .inr (ih has)
      | ok bs =>
        rw [has] at h
        cases h

theorem mapM_congr {f g : α → Except ε β} {as : List α}
    (h : ∀ a ∈ as, f a = g a) : as.mapM f = as.mapM g := by
  induction as with
  | nil => rfl
  | cons a as ih =>
    obtain ⟨ha, has⟩ := List.forall_mem_cons.1 h
    rw [List.mapM_cons, List.mapM_cons, ha, ih has]

namespace Logged

/-- A computation returns a value whatever is in the log before. -/
def Returns (x : Logged α) (a : α) : Prop := ∀ log, (x.run log).1 = a

theorem returns_pure (a : α) : Returns (pure a) a := fun _ => rfl

theorem returns_unit (x : Logged Unit) : Returns x () := fun _ => rfl

theorem Returns.unique {x : Logged α} {a b : α} (h : Returns x a) (h' : Returns x b) : a = b :=
  (h []).symm.trans (h' [])

theorem Returns.bind {x : Logged α} {f : α → Logged β} {a : α} {b : β} (hx : Returns x a)
    (hf : Returns (f a) b) : Returns (x >>= f) b := by
  intro log
  have hfst := hx log
  have hsnd := hf (x.run log).2
  rw [← hfst] at hsnd
  exact hsnd

theorem Returns.mapM {f : α → Logged β} {g : α → β} {as : List α}
    (h : ∀ a ∈ as, Returns (f a) (g a)) : Returns (as.mapM f) (as.map g) := by
  induction as with
  | nil => exact returns_pure []
  | cons a as ih =>
    obtain ⟨hfirst, hrest⟩ := List.forall_mem_cons.1 h
    rw [List.mapM_cons, List.map_cons]
    exact hfirst.bind ((ih hrest).bind (returns_pure _))

theorem Returns.outcome {x : Logged α} {a : α} (h : Returns x a) : (outcome x).1 = a := h []

/-- A computation returns a value with a property whatever is in the log before. -/
def Ensures (x : Logged α) (P : α → Prop) : Prop := ∀ log, P (x.run log).1

theorem Returns.ensures {x : Logged α} {a : α} (h : Returns x a) {P : α → Prop} (ha : P a) :
    Ensures x P := by
  intro log
  rw [h log]
  exact ha

theorem Ensures.bind {x : Logged α} {f : α → Logged β} {P : α → Prop} {Q : β → Prop}
    (hx : Ensures x P) (hf : ∀ a, P a → Ensures (f a) Q) : Ensures (x >>= f) Q :=
  fun log => hf _ (hx log) (x.run log).2

/-- What is only noted does not matter for the rest. -/
theorem Ensures.after {x : Logged Unit} {f : Unit → Logged α} {P : α → Prop}
    (h : Ensures (f ()) P) : Ensures (x >>= f) P :=
  fun log => h (x.run log).2

end Logged

open Logged

/-- A computation that may fail has an outcome whatever is in the log before. -/
def Gives (x : ExceptT ε Logged α) (r : Except ε α) : Prop := Returns x.run r

theorem gives_pure (a : α) : Gives (pure a : ExceptT ε Logged α) (.ok a) := returns_pure _

theorem gives_throw (e : ε) : Gives (throw e : ExceptT ε Logged α) (.error e) := returns_pure _

theorem Gives.bind_ok {x : ExceptT ε Logged α} {f : α → ExceptT ε Logged β} {a : α}
    {r : Except ε β} (hx : Gives x (.ok a)) (hf : Gives (f a) r) : Gives (x >>= f) r :=
  Returns.bind (f := ExceptT.bindCont f) hx hf

theorem Gives.bind_error {x : ExceptT ε Logged α} {f : α → ExceptT ε Logged β} {e : ε}
    (hx : Gives x (.error e)) : Gives (x >>= f) (.error e) :=
  Returns.bind (f := ExceptT.bindCont f) hx (returns_pure _)

theorem Gives.bind_gives {x : ExceptT ε Logged α} {f : α → ExceptT ε Logged β} {r : Except ε α}
    {g : α → Except ε β} (hx : Gives x r) (hf : ∀ a, r = .ok a → Gives (f a) (g a)) :
    Gives (x >>= f) (r >>= g) := by
  cases r with
  | error e => exact hx.bind_error
  | ok a => exact hx.bind_ok (hf a rfl)

theorem gives_except (x : Except ε α) : Gives (liftM x : ExceptT ε Logged α) x := returns_pure x

theorem gives_logged {x : Logged α} {a : α} (h : Returns x a) :
    Gives (liftM x : ExceptT ε Logged α) (.ok a) :=
  fun log => congrArg Except.ok (h log)

theorem Gives.adapt {x : ExceptT ε Logged α} {r : Except ε α} (h : Gives x r) (f : ε → ε') :
    Gives (x.adapt f) (r.mapError f) :=
  fun log => congrArg (Except.mapError f) (h log)

/-- An outcome that a computation has, with some log before it. -/
def CanGive (x : ExceptT ε Logged α) (r : Except ε α) : Prop := ∃ log, (x.run.run log).1 = r

/-- Where the log does not matter, there is only one outcome. -/
theorem Gives.eq_of_canGive {x : ExceptT ε Logged α} {r r' : Except ε α} (h : Gives x r)
    (h' : CanGive x r') : r' = r := by
  obtain ⟨log, rfl⟩ := h'
  exact h log

/-- A computation has a result with a property, whatever is in the log before. -/
def Yields (x : ExceptT ε Logged α) (P : α → Prop) : Prop :=
  Ensures x.run fun r => ∃ a, r = .ok a ∧ P a

theorem Gives.yields {x : ExceptT ε Logged α} {a : α} (h : Gives x (.ok a)) {P : α → Prop}
    (ha : P a) : Yields x P :=
  Returns.ensures h ⟨a, rfl, ha⟩

theorem yields_logged {x : Logged α} {P : α → Prop} (h : Ensures x P) :
    Yields (liftM x : ExceptT ε Logged α) P :=
  fun log => ⟨_, rfl, h log⟩

/-- What follows a result decides the outcome. -/
theorem Yields.ensures_bind {x : ExceptT ε Logged α} {f : α → ExceptT ε Logged β} {P : α → Prop}
    {Q : Except ε β → Prop} (hx : Yields x P) (hf : ∀ a, P a → Ensures (f a).run Q) :
    Ensures (x >>= f).run Q := by
  refine Ensures.bind (f := ExceptT.bindCont f) hx ?_
  rintro _ ⟨a, rfl, ha⟩
  exact hf a ha

theorem Gives.mapM {f : α → ExceptT ε Logged β} {g : α → Except ε β} {as : List α}
    (h : ∀ a ∈ as, Gives (f a) (g a)) : Gives (as.mapM f) (as.mapM g) := by
  induction as with
  | nil => exact gives_pure []
  | cons a as ih =>
    obtain ⟨hfirst, hrest⟩ := List.forall_mem_cons.1 h
    rw [List.mapM_cons, List.mapM_cons]
    exact hfirst.bind_gives fun b _ => (ih hrest).bind_gives fun bs _ => gives_pure (b :: bs)

theorem Gives.outcome {x : ExceptT ε Logged α} {r : Except ε α} (h : Gives x r) :
    (Logged.outcome x.run).1 = r := Returns.outcome h

end FunctionInventory
