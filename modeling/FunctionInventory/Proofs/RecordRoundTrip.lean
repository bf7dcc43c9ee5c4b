import FunctionInventory.Cache
import FunctionInventory.Proofs.MessagePack
import FunctionInventory.Proofs.RecordChecks

/-!
# Records and their data

Checking the data of a record gives the record, nested ones included, so that records
come back from a stored entry as they were. Their data is plain and can be read from
a file again.
-/
namespace FunctionInventory

namespace NameSet

theorem insertSorted_of_all_lt {t : Text} {us : List Text} (h : ∀ u ∈ us, Text.lt u t) :
    insertSorted t us = us ++ [t] := by
  induction us with
  | nil => rfl
  | cons u us ih =>
    obtain ⟨hu, hus⟩ := List.forall_mem_cons.1 h
    have hnot : Text.lt t u = false := by
      rw [Bool.eq_false_iff]
      intro ht
      have hirrefl := Text.lt_irrefl t
      rw [Text.lt_trans ht hu] at hirrefl
      cases hirrefl
    simp [insertSorted, hnot, hu, ih hus]

theorem names_foldl_insert {ts : List Text} {s : NameSet}
    (h : (s.names ++ ts).Pairwise fun a b => Text.lt a b) :
    (ts.foldl insert s).names = s.names ++ ts := by
  induction ts generalizing s with
  | nil => simp
  | cons t ts ih =>
    have hlast : (s.insert t).names = s.names ++ [t] :=
      insertSorted_of_all_lt fun u hu => (List.pairwise_append.1 h).2.2 u hu t List.mem_cons_self
    have happend : s.names ++ t :: ts = (s.insert t).names ++ ts := by simp [hlast]
    rw [happend] at h ⊢
    exact ih h

/-- The names of a set make up the set. -/
theorem ofList_names (s : NameSet) : ofList s.names = s := by
  obtain ⟨names, increasing⟩ := s
  have h : (ofList names).names = names := names_foldl_insert increasing
  cases hs : ofList names
  rw [hs] at h
  cases h
  rfl

end NameSet

namespace Check

theorem items_map {check : Value → Check α} {dump : α → Value}
    (h : ∀ a, check (dump a) = .ok a) (as : List α) (i : Nat) :
    items check i (as.map dump) = .ok as := by
  induction as generalizing i with
  | nil => rfl
  | cons a as ih =>
    rw [List.map_cons, items, h, ih]
    rfl

end Check

section

variable {v w : Value} {check : Value → Check α} {a : α}

theorem required_eq_ok {key : Text} (hget : v.get? key = some w) (h : check w = .ok a) :
    required v key check = .ok a := by
  rw [required, hget]
  dsimp only
  rw [h]
  rfl

theorem optional_eq_ok {key : Text} {default : α} (hget : v.get? key = some w)
    (h : check w = .ok a) : optional v key default check = .ok a := by
  rw [optional, hget]
  dsimp only
  rw [h]
  rfl

namespace RecordField

theorem required_eq_ok {f : RecordField}
    (hget : fieldValue? v (f.key .camelCase) (f.key .snakeCase) = some w) (h : check w = .ok a) :
    f.required v check = .ok a := by
  rw [required, hget]
  dsimp only
  rw [h]
  rfl

theorem optional_eq_ok {f : RecordField} {default : α}
    (hget : fieldValue? v (f.key .camelCase) (f.key .snakeCase) = some w) (h : check w = .ok a) :
    f.optional v default check = .ok a := by
  rw [optional, hget]
  dsimp only
  rw [h]
  rfl

end RecordField

end

theorem Parameter.check_dump (p : Parameter) : Parameter.check p.dump = .ok p := rfl

theorem Check.lineNumber_int {n : Nat} (h : 1 ≤ n) : Check.lineNumber (.int n) = .ok ⟨n, h⟩ :=
  dif_pos (show (1 : Int) ≤ n by omega)

theorem LineRange.check_dump (r : LineRange) : LineRange.check r.dump = .ok r := by
  have hstart : required r.dump "start" Check.lineNumber = .ok ⟨r.start, r.pos⟩ :=
    required_eq_ok rfl (Check.lineNumber_int r.pos)
  have hstop : required r.dump "end" Check.lineNumber = .ok ⟨r.stop, Nat.le_trans r.pos r.le⟩ :=
    required_eq_ok rfl (Check.lineNumber_int (Nat.le_trans r.pos r.le))
  show Check.andThen (Check.both Prod.mk (required r.dump "start" Check.lineNumber)
    (required r.dump "end" Check.lineNumber)) _ = _
  rw [hstart, hstop]
  exact dif_pos r.le

namespace FunctionRecord

theorem Outline.check_toValue (style : KeyStyle) (r : FunctionRecord) :
    Outline.check (r.toValue style) =
      .ok ⟨r.name, r.parameters, r.returnType, r.lines, r.sourceText⟩ := by
  have hname : FunctionInventory.required (r.toValue style) "name" Check.text = .ok r.name :=
    required_eq_ok (w := r.name) (by cases style <;> cases r <;> rfl) rfl
  have hparameters : FunctionInventory.optional (r.toValue style) "parameters" []
      (Check.list Parameter.check) = .ok r.parameters :=
    optional_eq_ok (w := .list (r.parameters.map Parameter.dump))
      (by cases style <;> cases r <;> rfl)
      (Check.items_map Parameter.check_dump r.parameters 0)
  have hreturn : RecordField.returnType.optional (r.toValue style) voidType Check.text =
      .ok r.returnType :=
    RecordField.optional_eq_ok (w := r.returnType) (by cases style <;> cases r <;> rfl) rfl
  have hlines : RecordField.lineRange.required (r.toValue style) LineRange.check = .ok r.lines :=
    RecordField.required_eq_ok (w := r.lines.dump) (by cases style <;> cases r <;> rfl)
      (LineRange.check_dump r.lines)
  have hsource : RecordField.sourceText.required (r.toValue style) Check.text = .ok r.sourceText :=
    RecordField.required_eq_ok (w := r.sourceText) (by cases style <;> cases r <;> rfl) rfl
  rw [Outline.check, hname, hparameters, hreturn, hlines, hsource]
  rfl

theorem calls_check_toValue (style : KeyStyle) (r : FunctionRecord) :
    RecordField.calledFunctions.optional (r.toValue style) ∅ Check.nameSet = .ok r.calls := by
  refine RecordField.optional_eq_ok (w := .list (r.calls.names.map .text))
    (by cases style <;> cases r <;> rfl) ?_
  have htext : ∀ t, Check.text (.text t) = .ok t := fun t => rfl
  rw [Check.nameSet, Check.items_map htext r.calls.names 0]
  exact congrArg Check.ok r.calls.ofList_names

/-- Checking the data of a record comes down to checking that of the records nested in it. -/
theorem check_succ_toValue (levels : Nat) (style : KeyStyle) (r : FunctionRecord) :
    check (levels + 1) (r.toValue style) =
      ((checkItems levels 0 (toValues style r.inner)).below
        (.key (RecordField.innerFunctions.key .camelCase))).map fun inner => { r with inner } := by
  have houtline := Outline.check_toValue style r
  have hcalls := calls_check_toValue style r
  obtain ⟨name, parameters, returnType, lines, sourceText, inner, calls⟩ := r
  have hboth (x : Check (List FunctionRecord)) :
      Check.both (fun o rest => Outline.complete o rest.1 rest.2)
        (.ok ⟨name, parameters, returnType, lines, sourceText⟩) (Check.both Prod.mk x (.ok calls)) =
      x.map fun inner => ⟨name, parameters, returnType, lines, sourceText, inner, calls⟩ := by
    cases x <;> rfl
  rw [← hboth, ← houtline, ← hcalls, toValue, Value.object, check]
  cases style <;> rfl

mutual

/-- Checking undoes turning into data, in both spellings of the keys, as deep as it goes. -/
theorem check_toValue (style : KeyStyle) {levels : Nat} (r : FunctionRecord)
    (h : r.depth ≤ levels) : check levels (r.toValue style) = .ok r := by
  match levels, r with
  | 0, r =>
    rw [depth_eq] at h
    omega
  | levels + 1, ⟨name, parameters, returnType, lines, sourceText, inner, calls⟩ =>
    have hinner : depthAll inner ≤ levels := by
      rw [depth_eq] at h
      exact Nat.le_of_succ_le_succ h
    rw [check_succ_toValue, checkItems_toValues style inner 0 hinner]
    rfl

theorem checkItems_toValues (style : KeyStyle) {levels : Nat} (rs : List FunctionRecord) (i : Nat)
    (h : depthAll rs ≤ levels) : checkItems levels i (toValues style rs) = .ok rs := by
  match rs with
  | [] => rfl
  | r :: rs =>
    rw [depthAll_cons, Nat.max_le] at h
    rw [toValues, checkItems, check_toValue style r h.1, checkItems_toValues style rs _ h.2]
    rfl

end

mutual

/-- A record that comes from the data of a record is that record. -/
theorem eq_of_check_toValue (style : KeyStyle) {levels : Nat} (r : FunctionRecord)
    {s : FunctionRecord} (h : check levels (r.toValue style) = .ok s) : s = r := by
  match levels, r with
  | 0, r => simp [check] at h
  | levels + 1, ⟨name, parameters, returnType, lines, sourceText, inner, calls⟩ =>
    rw [check_succ_toValue] at h
    obtain ⟨inner', hinner, rfl⟩ := map_eq_ok_iff.1 h
    rw [eq_of_checkItems_toValues style inner (Check.below_eq_ok_iff.1 hinner)]

theorem eq_of_checkItems_toValues (style : KeyStyle) {levels : Nat} (rs : List FunctionRecord)
    {i : Nat} {ss : List FunctionRecord} (h : checkItems levels i (toValues style rs) = .ok ss) :
    ss = rs := by
  match rs with
  | [] =>
    cases h
    rfl
  | r :: rs =>
    rw [toValues, checkItems] at h
    obtain ⟨s, ss', hs, hss, rfl⟩ := Check.both_eq_ok_iff.1 h
    rw [eq_of_check_toValue style r (Check.below_eq_ok_iff.1 hs),
      eq_of_checkItems_toValues style rs hss]

end

/-- The data of a record leads back to the record, and to nothing else, if the check goes as
deep as the record. -/
theorem check_toValue_eq_ok_iff {style : KeyStyle} {levels : Nat} {r s : FunctionRecord} :
    check levels (r.toValue style) = .ok s ↔ s = r ∧ r.depth ≤ levels := by
  constructor
  · intro h
    obtain rfl := eq_of_check_toValue style r h
    exact ⟨rfl, depth_le_of_check h⟩
  · rintro ⟨rfl, h⟩
    exact check_toValue style s h

theorem toValues_eq_map (style : KeyStyle) (rs : List FunctionRecord) :
    toValues style rs = rs.map (toValue style) := by
  induction rs with
  | nil => rw [toValues]; rfl
  | cons r rs ih => rw [toValues, ih]; rfl

theorem dump_eq_ok_iff {limit : Nat} {style : KeyStyle} {r : FunctionRecord} {v : Value} :
    r.dump limit style = .ok v ↔ r.depth ≤ limit ∧ v = r.toValue style := by
  unfold dump
  split <;> simp_all [eq_comm]

theorem dumpAll_eq_ok {limit : Nat} (style : KeyStyle) {rs : List FunctionRecord}
    (h : depthAll rs ≤ limit) : dumpAll limit style rs = .ok (toValues style rs) := by
  rw [dumpAll, toValues_eq_map, mapM_eq_ok_iff, List.forall₂_map_right_iff, List.forall₂_same]
  exact fun r hr => dump_eq_ok_iff.2 ⟨depthAll_le_iff.1 h r hr, rfl⟩

theorem dumpAll_eq_error {limit : Nat} (style : KeyStyle) {rs : List FunctionRecord}
    (h : limit < depthAll rs) : dumpAll limit style rs = .error .data := by
  cases hdump : dumpAll limit style rs with
  | error e =>
    obtain ⟨r, -, hr⟩ := exists_mem_of_mapM_eq_error hdump
    unfold dump at hr
    split at hr <;> cases hr
    rfl
  | ok vs =>
    have hdepth : depthAll rs ≤ limit := by
      rw [depthAll_le_iff]
      intro r hr
      obtain ⟨v, hv⟩ := exists_ok_of_mem hdump hr
      exact (dump_eq_ok_iff.1 hv).1
    omega

/-- The record of an arrow function whose body is an arrow function, and so on, `n` times. -/
def ofArrows : Nat → FunctionRecord
  | 0 => { name := anonymous, lines := default, sourceText := "() => 1" }
  | n + 1 => {
      name := anonymous
      lines := default
      sourceText := ("() => " : Text) ++ (ofArrows n).sourceText
      inner := [ofArrows n] }

@[simp] theorem depth_ofArrows (n : Nat) : (ofArrows n).depth = n + 1 := by
  induction n with
  | zero => simp [depth_eq, ofArrows]
  | succ n ih =>
    rw [depth_eq]
    change depthAll [ofArrows n] + 1 = n + 1 + 1
    rw [depthAll_cons, depthAll_nil, ih, Nat.max_zero]

end FunctionRecord

open MessagePack

theorem plain_object {ms : List (String × Value)}
    (distinct : (ms.map fun m => Text.ofString m.1).Nodup) (values : ∀ m ∈ ms, Plain m.2) :
    Plain (.object ms) := by
  refine .map ?_ ?_ ?_
  · rintro m hm
    obtain ⟨n, -, rfl⟩ := List.mem_map.1 hm
    exact ⟨_, rfl⟩
  · rw [List.pairwise_map]
    rw [List.Nodup, List.pairwise_map] at distinct
    exact distinct.imp fun hne heq => hne (Value.text.inj heq)
  · rintro m hm
    obtain ⟨n, hn, rfl⟩ := List.mem_map.1 hm
    exact values n hn

theorem plain_list_map {f : α → Value} (h : ∀ a, Plain (f a)) (as : List α) :
    Plain (.list (as.map f)) := by
  refine .list ?_
  rintro v hv
  obtain ⟨a, -, rfl⟩ := List.mem_map.1 hv
  exact h a

theorem Parameter.plain_dump (p : Parameter) : Plain p.dump := by
  refine plain_object (by simp only [List.map_cons, List.map_nil]; decide) ?_
  simp [Plain.text]

theorem LineRange.plain_dump (r : LineRange) : Plain r.dump := by
  refine plain_object (by simp only [List.map_cons, List.map_nil]; decide) ?_
  simp [Plain.int]

namespace FunctionRecord

mutual

theorem plain_toValue (r : FunctionRecord) : Plain (r.toValue .camelCase) := by
  match r with
  | ⟨name, parameters, returnType, lines, sourceText, inner, calls⟩ =>
    rw [toValue]
    refine plain_object (by simp only [List.map_cons, List.map_nil]; decide) ?_
    simp [Plain.text, plain_list_map Parameter.plain_dump, lines.plain_dump,
      plain_list_map Plain.text, plain_toValues inner]

theorem plain_toValues (rs : List FunctionRecord) : Plain (.list (toValues .camelCase rs)) := by
  refine .list ?_
  match rs with
  | [] => simp [toValues]
  | r :: rs =>
    rw [toValues, List.forall_mem_cons]
    refine ⟨plain_toValue r, ?_⟩
    cases plain_toValues rs with
    | list items => exact items

end

end FunctionRecord

namespace Cache

theorem recordsOf?_eq_some_iff {limits : Limits} {v : Value} {records : List FunctionRecord} :
    recordsOf? limits v = some records ↔ ∃ items, v.elements? = some items ∧
      List.Forall₂ (fun w r => FunctionRecord.check limits.data w = .ok r) items records := by
  unfold recordsOf?
  refine Option.bind_eq_some_iff.trans (exists_congr fun items => and_congr_right fun _ => ?_)
  rw [mapM_eq_some_iff]
  constructor
  · intro h
    refine h.imp fun w r hr => ?_
    split at hr
    · next s hs =>
      cases hr
      exact hs
    · cases hr
  · intro h
    refine h.imp fun w r hr => ?_
    rw [hr]
    rfl

/-- The entry of records stands for the records, if it is looked into as deep as they are nested,
and else for nothing. -/
theorem recordsOf?_toValues_eq_some_iff {limits : Limits} {rs ss : List FunctionRecord} :
    recordsOf? limits (.list (FunctionRecord.toValues .camelCase rs)) = some ss ↔
      ss = rs ∧ FunctionRecord.depthAll rs ≤ limits.data := by
  have hchecked : List.Forall₂ (fun w r => FunctionRecord.check limits.data w = .ok r)
      (FunctionRecord.toValues .camelCase rs) ss ↔
        ss = rs ∧ FunctionRecord.depthAll rs ≤ limits.data := by
    rw [FunctionRecord.toValues_eq_map, List.forall₂_map_left_iff,
      FunctionRecord.depthAll_le_iff]
    simp only [FunctionRecord.check_toValue_eq_ok_iff]
    constructor
    · intro h
      induction h with
      | nil => simp
      | cons hr _ ih => exact ⟨by rw [hr.1, ih.1], List.forall_mem_cons.2 ⟨hr.2, ih.2⟩⟩
    · rintro ⟨rfl, h⟩
      exact List.forall₂_same.2 fun r hr => ⟨rfl, h r hr⟩
  rw [recordsOf?_eq_some_iff, ← hchecked]
  simp [Value.elements?]

end Cache

end FunctionInventory
