import FunctionInventory.Resolution
import Mathlib.Data.List.Nodup

/-!
# Indexes of functions

Records are added to an index one by one, each behind the others of its name. What comes of it
is said without a loop: the names are those of the records, each where it occurs first, and a
name has all records of that name, in their order. So indexes of parts can be put together.
-/
namespace FunctionInventory

section
variable {α β : Type} [BEq α] [LawfulBEq α]

/-- Leaving out duplicates goes along with leaving out other items. -/
theorem eraseDups_filter (q : α → Bool) (as : List α) :
    (as.filter q).eraseDups = as.eraseDups.filter q := by
  match as with
  | [] => rfl
  | a :: as =>
    have ih := eraseDups_filter q (as.filter fun b => !b == a)
    rw [List.eraseDups_cons, List.filter_cons, List.filter_cons, ← ih, List.filter_filter]
    by_cases ha : q a
    · rw [if_pos ha, if_pos ha, List.eraseDups_cons, List.filter_filter]
      simp only [Bool.and_comm]
    · rw [if_neg ha, if_neg ha]
      congr 1
      apply List.filter_congr
      intro b _
      by_cases hb : b = a
      · simp [hb, ha]
      · simp [hb]
termination_by as.length
decreasing_by
  have := List.length_filter_le (fun b => !b == a) as
  simp only [List.length_cons]
  omega

theorem nodup_eraseDups (as : List α) : as.eraseDups.Nodup := by
  match as with
  | [] => simp
  | a :: as =>
    have ih := nodup_eraseDups as
    rw [List.eraseDups_cons, eraseDups_filter, List.nodup_cons]
    exact ⟨by simp, ih.filter _⟩

theorem eraseDups_append (as bs : List α) :
    (as ++ bs).eraseDups = as.eraseDups ++ bs.eraseDups.filter (!as.eraseDups.contains ·) := by
  have hmem : ∀ b, as.contains b = as.eraseDups.contains b := by
    intro b
    rw [Bool.eq_iff_iff, List.contains_iff_mem, List.contains_iff_mem, List.mem_eraseDups]
  rw [List.eraseDups_append, List.removeAll, eraseDups_filter]
  simp only [List.elem_eq_contains, hmem]

theorem lookup_map_eq_some_iff {f : α → β} {as : List α} {a : α} {b : β} :
    (as.map fun c => (c, f c)).lookup a = some b ↔ a ∈ as ∧ b = f a := by
  induction as with
  | nil => simp
  | cons c as ih =>
    rw [List.map_cons, List.lookup_cons, List.mem_cons]
    by_cases hac : a = c
    · simp [hac, eq_comm]
    · simp [hac, beq_false_of_ne hac, ih]

end

namespace FunctionIndex

/-- The records of a name, none if the index does not have the name. -/
def recordsOf (index : FunctionIndex) (name : Text) : List FunctionRecord :=
  (index.lookup name).getD []

/-- The index with the records of another one behind its own, name by name; names that are
new come last, in their order. -/
def extend (index more : FunctionIndex) : FunctionIndex :=
  index.map (fun e => (e.1, e.2 ++ more.recordsOf e.1)) ++
    more.filter fun e => !index.declares e.1

theorem recordsOf_singleton (name name' : Text) (rs : List FunctionRecord) :
    recordsOf [(name, rs)] name' = if name' = name then rs else [] := by
  rw [recordsOf, List.lookup_cons]
  by_cases hname : name' = name
  · simp [hname]
  · simp [hname, beq_false_of_ne hname]

@[simp] theorem extend_nil (index : FunctionIndex) : index.extend [] = index := by
  simp [extend, recordsOf]

theorem declares_iff {index : FunctionIndex} {name : Text} :
    index.declares name ↔ name ∈ index.map Prod.fst := by
  simp [declares]

/-- Adding a record extends the index by that record alone. -/
theorem add_eq_extend (r : FunctionRecord) {index : FunctionIndex}
    (h : (index.map Prod.fst).Nodup) : add r index = index.extend [(r.name, [r])] := by
  induction index with
  | nil => rfl
  | cons e index ih =>
    obtain ⟨name, rs⟩ := e
    obtain ⟨hnew, hnodup⟩ := List.nodup_cons.1 h
    rw [add]
    by_cases hname : name = r.name
    · have hothers : ∀ e ∈ index, (e.1, e.2 ++ recordsOf [(r.name, [r])] e.1) = id e := by
        intro e he
        have hne : e.1 ≠ r.name := by
          intro heq
          exact hnew (List.mem_map.2 ⟨e, he, heq.trans hname.symm⟩)
        simp [recordsOf_singleton, hne]
      rw [if_pos hname, extend, List.map_cons, List.map_congr_left hothers, List.map_id]
      simp [recordsOf_singleton, declares, hname]
    · have hdeclares : declares ((name, rs) :: index) r.name = declares index r.name := by
        simp [declares, hname]
      rw [if_neg hname, ih hnodup, extend, extend, List.map_cons]
      simp [recordsOf_singleton, List.filter_cons, hname, hdeclares]

/-- The names of records other than `anonymous`, each where it occurs first. -/
def namesOf (rs : List FunctionRecord) : List Text :=
  ((rs.map (·.name)).filter (· ≠ anonymous)).eraseDups

/-- The records with the name. -/
def named (rs : List FunctionRecord) (name : Text) : List FunctionRecord :=
  rs.filter (·.name = name)

/-- The names of records, each with all records of that name. -/
def grouped (rs : List FunctionRecord) : FunctionIndex :=
  (namesOf rs).map fun name => (name, named rs name)

variable {rs rs' : List FunctionRecord} {name : Text}

theorem mem_namesOf : name ∈ namesOf rs ↔ (∃ r ∈ rs, r.name = name) ∧ name ≠ anonymous := by
  simp [namesOf, List.mem_eraseDups]

theorem namesOf_append (rs rs' : List FunctionRecord) :
    namesOf (rs ++ rs') = namesOf rs ++ (namesOf rs').filter (!(namesOf rs).contains ·) := by
  rw [namesOf, List.map_append, List.filter_append, eraseDups_append]
  rfl

@[simp] theorem map_fst_grouped (rs : List FunctionRecord) :
    (grouped rs).map Prod.fst = namesOf rs := by
  simp [grouped, Function.comp_def]

theorem declares_grouped : (grouped rs).declares name ↔ name ∈ namesOf rs := by
  rw [declares_iff, map_fst_grouped]

theorem named_append (rs rs' : List FunctionRecord) (name : Text) :
    named (rs ++ rs') name = named rs name ++ named rs' name :=
  List.filter_append ..

theorem named_eq_nil (hname : name ∉ namesOf rs) (hne : name ≠ anonymous) : named rs name = [] := by
  rw [named, List.filter_eq_nil_iff]
  intro r hr hr'
  exact hname (mem_namesOf.2 ⟨⟨r, hr, by simpa using hr'⟩, hne⟩)

theorem recordsOf_grouped (hne : name ≠ anonymous) : (grouped rs).recordsOf name = named rs name := by
  rw [recordsOf, grouped]
  cases hlookup : ((namesOf rs).map fun name => (name, named rs name)).lookup name with
  | some found => exact (lookup_map_eq_some_iff.1 hlookup).2
  | none =>
    have hname : name ∉ namesOf rs := by
      intro hname
      rw [lookup_map_eq_some_iff.2 ⟨hname, rfl⟩] at hlookup
      cases hlookup
    rw [named_eq_nil hname hne]
    rfl

/-- Records that follow others extend their index. -/
theorem extend_grouped (rs rs' : List FunctionRecord) :
    (grouped rs).extend (grouped rs') = grouped (rs ++ rs') := by
  have hold : (grouped rs).map (fun e => (e.1, e.2 ++ (grouped rs').recordsOf e.1)) =
      (namesOf rs).map fun name => (name, named (rs ++ rs') name) := by
    rw [grouped.eq_1 rs, List.map_map]
    apply List.map_congr_left
    intro name hname
    have hne := (mem_namesOf.1 hname).2
    simp [recordsOf_grouped hne, named_append]
  have hnew : (grouped rs').filter (fun e => !(grouped rs).declares e.1) =
      ((namesOf rs').filter (!(namesOf rs).contains ·)).map fun name =>
        (name, named (rs ++ rs') name) := by
    have hfilter : (fun e : Text × List FunctionRecord => !(grouped rs).declares e.1) ∘
        (fun name => (name, named rs' name)) = fun name => !(namesOf rs).contains name := by
      funext name
      have hmem : (grouped rs).declares name = (namesOf rs).contains name := by
        rw [Bool.eq_iff_iff, declares_grouped, List.contains_iff_mem]
      simp [hmem]
    rw [grouped.eq_1 rs', List.filter_map, hfilter]
    apply List.map_congr_left
    intro name hname
    obtain ⟨hmem, hnot⟩ := List.mem_filter.1 hname
    have hnil : named rs name = [] := named_eq_nil (by simpa using hnot) (mem_namesOf.1 hmem).2
    rw [named_append, hnil, List.nil_append]
  rw [extend, hold, hnew, ← List.map_append, ← namesOf_append]
  rfl

/-- One record more. -/
theorem addDeclared_grouped (rs : List FunctionRecord) (r : FunctionRecord) :
    (grouped rs).addDeclared r = grouped (rs ++ [r]) := by
  rw [← extend_grouped, addDeclared]
  by_cases hr : r.name = anonymous
  · have hnone : grouped [r] = [] := by simp [grouped, namesOf, hr]
    rw [if_pos hr, hnone, extend_nil]
  · have hone : grouped [r] = [(r.name, [r])] := by
      simp [grouped, namesOf, named, hr, List.eraseDups_cons]
    rw [if_neg hr, hone]
    apply add_eq_extend
    rw [map_fst_grouped]
    exact nodup_eraseDups _

theorem foldl_addDeclared (rs rs' : List FunctionRecord) :
    rs'.foldl addDeclared (grouped rs) = grouped (rs ++ rs') := by
  induction rs' generalizing rs with
  | nil => simp
  | cons r rs' ih => rw [List.foldl_cons, addDeclared_grouped, ih, List.append_assoc]; rfl

theorem ofForests_eq_grouped (forests : List (List FunctionRecord)) :
    ofForests forests = grouped (forests.flatMap FunctionRecord.walkAll) :=
  foldl_addDeclared [] (forests.flatMap FunctionRecord.walkAll)

/-- The index has the names of all records, nested ones included, except `anonymous`. -/
theorem declares_ofForests {forests : List (List FunctionRecord)} {t : Text} :
    (ofForests forests).declares t ↔
      (∃ rs ∈ forests, ∃ r ∈ FunctionRecord.walkAll rs, r.name = t) ∧ t ≠ anonymous := by
  rw [ofForests_eq_grouped, declares_grouped, mem_namesOf]
  simp only [List.mem_flatMap]
  constructor
  · rintro ⟨⟨r, ⟨rs, hrs, hr⟩, rfl⟩, hne⟩
    exact ⟨⟨rs, hrs, r, hr, rfl⟩, hne⟩
  · rintro ⟨⟨rs, hrs, r, hr, rfl⟩, hne⟩
    exact ⟨⟨r, ⟨rs, hrs, hr⟩, rfl⟩, hne⟩

/-- The records of all inputs at any depth, parents first, in the order of the inputs. -/
def recordsIn (inputs : List Indexable) : List FunctionRecord :=
  inputs.flatMap fun input => FunctionRecord.walkAll input.functions

theorem recordsIn_append (inputs more : List Indexable) :
    recordsIn (inputs ++ more) = recordsIn inputs ++ recordsIn more :=
  List.flatMap_append

theorem ofAll_eq_grouped (inputs : List Indexable) : ofAll inputs = grouped (recordsIn inputs) := by
  rw [ofAll, ofForests_eq_grouped, List.flatMap_map]
  rfl

/-- The index of files and forests in any mixture. Its names are those of the records at any
depth, `anonymous` left out, each once and in the order of the first occurrences; each name has
exactly the records of that name, in their order, and other names have none. A file counts as
the forest of its functions, and the index of more inputs extends that of the first ones. -/
theorem index_groups_records (inputs : List Indexable) :
    (ofAll inputs).map Prod.fst =
      (((recordsIn inputs).map (·.name)).filter (· ≠ anonymous)).eraseDups ∧
    (∀ name rs, (ofAll inputs).lookup name = some rs ↔
      name ∈ (ofAll inputs).map Prod.fst ∧ rs = (recordsIn inputs).filter (·.name = name)) ∧
    (∀ path errors rs after, ofAll (inputs ++ .file ⟨path, rs, errors⟩ :: after) =
      ofAll (inputs ++ .forest rs :: after)) ∧
    ∀ more, ofAll (inputs ++ more) = (ofAll inputs).extend (ofAll more) := by
  refine ⟨?_, ?_, ?_, ?_⟩
  · rw [ofAll_eq_grouped, map_fst_grouped]
    rfl
  · intro name rs
    rw [ofAll_eq_grouped, map_fst_grouped]
    exact lookup_map_eq_some_iff
  · intro path errors rs after
    rw [ofAll_eq_grouped, ofAll_eq_grouped, recordsIn_append, recordsIn_append]
    rfl
  · intro more
    rw [ofAll_eq_grouped, ofAll_eq_grouped, ofAll_eq_grouped, extend_grouped, recordsIn_append]

end FunctionIndex

end FunctionInventory
