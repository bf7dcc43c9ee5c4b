import FunctionInventory.Nesting
import FunctionInventory.Text

/-!
# Function records

What the inventory keeps of a function: its name, parameters, return type, lines, text,
the functions nested in it, and the names it calls.
-/
namespace FunctionInventory

/-- A set of names, listed in increasing order of code points. -/
structure NameSet where
  names : List Text
  increasing : names.Pairwise fun a b => Text.lt a b
deriving DecidableEq

namespace NameSet

def empty : NameSet := ⟨[], .nil⟩

instance : EmptyCollection NameSet := ⟨empty⟩

instance : Inhabited NameSet := ⟨∅⟩

/-- Puts a name in its place in an increasing list. -/
def insertSorted (t : Text) : List Text → List Text
  | [] => [t]
  | u :: us =>
    if Text.lt t u then t :: u :: us else if Text.lt u t then u :: insertSorted t us else u :: us

@[simp] theorem mem_insertSorted {t v : Text} {us : List Text} :
    v ∈ insertSorted t us ↔ v = t ∨ v ∈ us := by
  induction us with
  | nil => simp [insertSorted]
  | cons u us ih =>
    simp only [insertSorted]
    split
    · simp
    · split
      · simp only [List.mem_cons, ih]
        constructor <;> rintro (h | h | h) <;> simp [h]
      · next h k =>
        have : t = u := Text.eq_of_not_lt (by simpa using h) (by simpa using k)
        simp [this]

theorem insertSorted_increasing {t : Text} {us : List Text}
    (h : us.Pairwise fun a b => Text.lt a b) :
    (insertSorted t us).Pairwise fun a b => Text.lt a b := by
  induction us with
  | nil => simp [insertSorted]
  | cons u us ih =>
    obtain ⟨hu, hus⟩ := List.pairwise_cons.1 h
    simp only [insertSorted]
    split
    · next htu =>
      refine List.pairwise_cons.2 ⟨fun v hv => ?_, h⟩
      rcases List.mem_cons.1 hv with rfl | hv
      · exact htu
      · exact Text.lt_trans htu (hu v hv)
    · split
      · next hut =>
        refine List.pairwise_cons.2 ⟨fun v hv => ?_, ih hus⟩
        rcases mem_insertSorted.1 hv with rfl | hv
        · exact hut
        · exact hu v hv
      · exact h

def insert (s : NameSet) (t : Text) : NameSet :=
  ⟨insertSorted t s.names, insertSorted_increasing s.increasing⟩

def ofList (ts : List Text) : NameSet := ts.foldl insert ∅

def filter (p : Text → Bool) (s : NameSet) : NameSet := ⟨s.names.filter p, s.increasing.filter p⟩

def contains (s : NameSet) (t : Text) : Bool := s.names.contains t

end NameSet

/-- Stands for the name of a function that has none. -/
def anonymous : Text := "anonymous"

/-- Stands for the type of a parameter that declares none. -/
def anyType : Text := "any"

/-- Stands for the return type of a function that declares none. -/
def voidType : Text := "void"

structure Parameter where
  name : Text
  type : Text := anyType
deriving DecidableEq, Inhabited

/-- Lines from `start` to `stop`, both included and counted from one. -/
structure LineRange where
  start : Nat
  stop : Nat
  pos : 1 ≤ start
  le : start ≤ stop
deriving DecidableEq

instance : Inhabited LineRange := ⟨⟨1, 1, by decide, by decide⟩⟩

structure FunctionRecord where
  name : Text
  parameters : List Parameter := []
  returnType : Text := voidType
  lines : LineRange
  sourceText : Text
  inner : List FunctionRecord := []
  calls : NameSet := ∅
deriving Inhabited

namespace FunctionRecord

mutual

/-- Equality of records, nested ones included. -/
def decEq : (a b : FunctionRecord) → Decidable (a = b)
  | ⟨n₁, p₁, r₁, l₁, s₁, i₁, c₁⟩, ⟨n₂, p₂, r₂, l₂, s₂, i₂, c₂⟩ =>
    if h : n₁ = n₂ ∧ p₁ = p₂ ∧ r₁ = r₂ ∧ l₁ = l₂ ∧ s₁ = s₂ ∧ c₁ = c₂ then
      match decEqList i₁ i₂ with
      | isTrue hi => isTrue (by simp_all)
      | isFalse hi => isFalse (by simp_all)
    else isFalse (by simp_all)

def decEqList : (as bs : List FunctionRecord) → Decidable (as = bs)
  | [], [] => isTrue rfl
  | [], _ :: _ => isFalse (by simp)
  | _ :: _, [] => isFalse (by simp)
  | a :: as, b :: bs =>
    match decEq a b with
    | isFalse h => isFalse (by simp_all)
    | isTrue h =>
      match decEqList as bs with
      | isTrue hs => isTrue (by simp_all)
      | isFalse hs => isFalse (by simp_all)

end

instance : DecidableEq FunctionRecord := decEq

theorem totalOf_sizeOf_inner_lt (r : FunctionRecord) : totalOf sizeOf r.inner < sizeOf r := by
  have hinner := totalOf_sizeOf_le r.inner
  cases r
  simp only [FunctionRecord.mk.sizeOf_spec] at *
  omega

/-- A record holds the records nested in it. -/
def nesting : Nesting FunctionRecord where
  children := inner
  shrinks := ⟨sizeOf, totalOf_sizeOf_inner_lt⟩

/-- A record and the records nested in it, parents first. -/
def walk (r : FunctionRecord) : List FunctionRecord := nesting.preorder r

/-- The records of a forest, parents first. -/
def walkAll (rs : List FunctionRecord) : List FunctionRecord := rs.flatMap walk

theorem walk_eq (r : FunctionRecord) : r.walk = r :: walkAll r.inner := nesting.preorder_eq r

@[simp] theorem walkAll_nil : walkAll [] = [] := rfl

@[simp] theorem walkAll_cons (r : FunctionRecord) (rs : List FunctionRecord) :
    walkAll (r :: rs) = r :: (walkAll r.inner ++ walkAll rs) := by
  rw [walkAll, List.flatMap_cons, walk_eq]
  rfl

mutual

/-- How many records are nested in each other at most, the record itself included. -/
def depth : FunctionRecord → Nat
  | ⟨_, _, _, _, _, inner, _⟩ => depthAll inner + 1

/-- How many records of a forest are nested in each other at most. -/
def depthAll : List FunctionRecord → Nat
  | [] => 0
  | r :: rs => max (depth r) (depthAll rs)

end

theorem depth_eq (r : FunctionRecord) : r.depth = depthAll r.inner + 1 := by
  cases r
  rw [depth]

@[simp] theorem depthAll_nil : depthAll [] = 0 := by rw [depthAll]

@[simp] theorem depthAll_cons (r : FunctionRecord) (rs : List FunctionRecord) :
    depthAll (r :: rs) = max r.depth (depthAll rs) := by rw [depthAll]

theorem depthAll_append (rs ss : List FunctionRecord) :
    depthAll (rs ++ ss) = max (depthAll rs) (depthAll ss) := by
  induction rs with
  | nil => simp
  | cons r rs ih => rw [List.cons_append, depthAll_cons, depthAll_cons, ih, Nat.max_assoc]

theorem depthAll_le_iff {rs : List FunctionRecord} {n : Nat} :
    depthAll rs ≤ n ↔ ∀ r ∈ rs, r.depth ≤ n := by
  induction rs with
  | nil => simp
  | cons r rs ih => rw [depthAll_cons, Nat.max_le, ih, List.forall_mem_cons]

/-- A list of a forest: that of the roots, or that of the records nested in the one to
which the numbers lead, from the roots on. -/
abbrev Container := List Nat

/-- How many records are directly in a container. -/
def countIn : Container → List FunctionRecord → Nat
  | [], rs => rs.length
  | i :: c, rs => (rs[i]?.map fun s => countIn c s.inner).getD 0

/-- Puts a record at the end of a container. -/
def addTo (r : FunctionRecord) : Container → List FunctionRecord → List FunctionRecord
  | [], rs => rs ++ [r]
  | i :: c, rs => rs.modify i fun s => { s with inner := addTo r c s.inner }

end FunctionRecord

/-- A file to be analyzed. -/
structure SourceUnit where
  path : Text
  content : Text
deriving DecidableEq, Inhabited

/-- The functions of a file, or why there are none. -/
structure FileFunctions where
  path : Text
  functions : List FunctionRecord := []
  errors : List Text := []
deriving DecidableEq, Inhabited

end FunctionInventory
