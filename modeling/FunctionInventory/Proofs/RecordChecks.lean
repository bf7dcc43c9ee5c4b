import FunctionInventory.Proofs.Outcomes
import FunctionInventory.Proofs.Places
import FunctionInventory.Record.Validation

/-!
# What checked data says

Data that passes the check of a record has the lines of the record, and so at every depth: each
record nested in it comes from data that is nested there, and no data that is nested there is
left out. All of these lines are in order, and no more records are nested in each other than the
check goes into.
-/
namespace FunctionInventory

namespace Check

@[simp] theorem fail_ne_ok (p : Problem) (a : α) : fail p ≠ ok a := by
  intro h
  cases h

theorem both_eq_ok_iff {f : α → β → γ} {x : Check α} {y : Check β} {c : γ} :
    both f x y = .ok c ↔ ∃ a b, x = .ok a ∧ y = .ok b ∧ f a b = c := by
  constructor
  · intro h
    unfold both at h
    split at h
    · exact ⟨_, _, rfl, rfl, Except.ok.inj h⟩
    all_goals cases h
  · rintro ⟨a, b, rfl, rfl, rfl⟩
    rfl

theorem andThen_eq_ok_iff {x : Check α} {f : α → Check β} {b : β} :
    x.andThen f = .ok b ↔ ∃ a, x = .ok a ∧ f a = .ok b := by
  constructor
  · intro h
    unfold andThen at h
    split at h
    · exact ⟨_, rfl, h⟩
    · cases h
  · rintro ⟨a, rfl, hf⟩
    exact hf

theorem below_eq_ok_iff {part : ValuePart} {x : Check α} {a : α} :
    x.below part = .ok a ↔ x = .ok a := mapError_eq_ok_iff

theorem members_eq_ok_iff {model : String} {v : Value} {check : Value → Check α} {a : α} :
    members model v check = .ok a ↔ (∃ ms, v = .map ms) ∧ check v = .ok a := by
  cases v with
  | map ms => simp [members]
  | _ => simp [members]

theorem lineNumber_eq_ok_iff {v : Value} {n : { n : Nat // 1 ≤ n }} :
    lineNumber v = .ok n ↔ integer v = .ok (n.val : Int) := by
  have hpos := n.property
  rw [lineNumber, andThen_eq_ok_iff]
  constructor
  · rintro ⟨i, hi, h⟩
    split at h
    · cases h
      rw [hi, Int.toNat_of_nonneg (by omega)]
    · cases h
  · intro h
    refine ⟨n.val, h, ?_⟩
    rw [dif_pos (by omega)]
    rfl

end Check

theorem required_eq_ok_iff {v : Value} {key : Text} {check : Value → Check α} {a : α} :
    required v key check = .ok a ↔ ∃ w, v.get? key = some w ∧ check w = .ok a := by
  rw [required, Check.below_eq_ok_iff]
  cases v.get? key with
  | none => simp
  | some w => simp

/-- The data of a field of a record, under either spelling of its key. -/
def RecordField.data? (f : RecordField) (v : Value) : Option Value :=
  fieldValue? v (f.key .camelCase) (f.key .snakeCase)

theorem RecordField.required_eq_ok_iff {f : RecordField} {v : Value} {check : Value → Check α}
    {a : α} : f.required v check = .ok a ↔ ∃ w, f.data? v = some w ∧ check w = .ok a := by
  rw [required, Check.below_eq_ok_iff, data?]
  cases fieldValue? v (f.key .camelCase) (f.key .snakeCase) with
  | none => simp
  | some w => simp

/-- The data of a line range has these numbers. -/
def LineRange.GivenBy (v : Value) (start stop : Int) : Prop :=
  (∃ w, v.get? "start" = some w ∧ Check.integer w = .ok start) ∧
    ∃ w, v.get? "end" = some w ∧ Check.integer w = .ok stop

theorem LineRange.givenBy_of_check {v : Value} {lines : LineRange}
    (h : LineRange.check v = .ok lines) : LineRange.GivenBy v lines.start lines.stop := by
  obtain ⟨-, h⟩ := Check.members_eq_ok_iff.1 h
  obtain ⟨⟨start, stop⟩, hboth, hmake⟩ := Check.andThen_eq_ok_iff.1 h
  obtain ⟨start', stop', hstart, hstop, heq⟩ := Check.both_eq_ok_iff.1 hboth
  cases heq
  obtain ⟨w, hw, hstart⟩ := required_eq_ok_iff.1 hstart
  obtain ⟨w', hw', hstop⟩ := required_eq_ok_iff.1 hstop
  simp only [make] at hmake
  split at hmake
  · cases hmake
    exact ⟨⟨w, hw, Check.lineNumber_eq_ok_iff.1 hstart⟩, w', hw', Check.lineNumber_eq_ok_iff.1 hstop⟩
  · cases hmake

namespace FunctionRecord

variable {levels : Nat}

theorem map_check_of_checkItems {vs : List Value} {rs : List FunctionRecord} {i : Nat}
    (h : checkItems levels i vs = .ok rs) : vs.map (check levels) = rs.map .ok := by
  induction vs generalizing i rs with
  | nil =>
    rw [checkItems] at h
    cases h
    rfl
  | cons v vs ih =>
    rw [checkItems] at h
    obtain ⟨r, rs', hr, hrs, rfl⟩ := Check.both_eq_ok_iff.1 h
    rw [List.map_cons, List.map_cons, Check.below_eq_ok_iff.1 hr, ih hrs]

theorem checkInner_eq (levels : Nat) (key : Text) (ms : List (Value × Value)) :
    checkInner levels key ms = (Value.find? (.text key) ms).map (checkList levels) := by
  induction ms with
  | nil => rw [checkInner]; rfl
  | cons m ms ih =>
    obtain ⟨k, v⟩ := m
    rw [checkInner]
    by_cases hsame : Value.sameKey k (.text key) = true
    · simp [Value.find?, hsame]
    · rw [if_neg hsame, ih]
      simp [Value.find?, hsame]

theorem checkInner_orElse (levels : Nat) (ms : List (Value × Value)) :
    ((checkInner levels (RecordField.innerFunctions.key .camelCase) ms).orElse fun _ =>
      checkInner levels (RecordField.innerFunctions.key .snakeCase) ms) =
      (RecordField.innerFunctions.data? (.map ms)).map (checkList levels) := by
  rw [checkInner_eq, checkInner_eq]
  show _ = ((Value.find? (.text (RecordField.innerFunctions.key .camelCase)) ms).orElse fun _ =>
    Value.find? (.text (RecordField.innerFunctions.key .snakeCase)) ms).map (checkList levels)
  cases Value.find? (.text (RecordField.innerFunctions.key .camelCase)) ms <;> rfl

/-- The data of the records that are nested directly in the data of a record. -/
def innerData (v : Value) : List Value :=
  match RecordField.innerFunctions.data? v with
  | some (.list vs) => vs
  | _ => []

/-- The data to which the numbers lead, from the data of a record on. -/
def dataAt? : Value → List Nat → Option Value
  | v, [] => some v
  | v, i :: path => (innerData v)[i]?.bind fun w => dataAt? w path

theorem Outline.lines_of_check {v : Value} {o : Outline} (h : Outline.check v = .ok o) :
    ∃ w, RecordField.lineRange.data? v = some w ∧ LineRange.check w = .ok o.lines := by
  obtain ⟨names, ⟨types, source⟩, -, hfields, rfl⟩ := Check.both_eq_ok_iff.1 h
  obtain ⟨types', source', htypes, -, heq⟩ := Check.both_eq_ok_iff.1 hfields
  cases heq
  obtain ⟨returnType, lines, -, hlines, rfl⟩ := Check.both_eq_ok_iff.1 htypes
  exact RecordField.required_eq_ok_iff.1 hlines

/-- What a checked record says of its data: the lines are there, and each of the records
nested in it comes from the data at the same place, with one level less. -/
theorem lines_and_inner_of_check {v : Value} {r : FunctionRecord} (h : check levels v = .ok r) :
    (∃ w, RecordField.lineRange.data? v = some w ∧ LineRange.check w = .ok r.lines) ∧
      1 ≤ levels ∧ (innerData v).map (check (levels - 1)) = r.inner.map .ok := by
  cases levels with
  | zero => simp [check] at h
  | succ levels =>
    cases v with
    | map ms =>
      rw [check] at h
      obtain ⟨o, ⟨inner, calls⟩, houtline, hrest, rfl⟩ := Check.both_eq_ok_iff.1 h
      obtain ⟨inner', calls', hinner, -, heq⟩ := Check.both_eq_ok_iff.1 hrest
      cases heq
      refine ⟨Outline.lines_of_check houtline, by omega, ?_⟩
      simp only [checkInner_orElse] at hinner
      unfold innerData
      cases hfield : RecordField.innerFunctions.data? (.map ms) with
      | none =>
        rw [hfield] at hinner
        cases hinner
        rfl
      | some w =>
        rw [hfield] at hinner
        have hlist := Check.below_eq_ok_iff.1 hinner
        cases w with
        | list vs =>
          rw [checkList] at hlist
          exact map_check_of_checkItems hlist
        | _ => simp [checkList] at hlist
    | _ => simp [check] at h

/-- Records that pass a check are nested no deeper than it goes. -/
theorem depth_le_of_check {r : FunctionRecord} {v : Value} (h : check levels v = .ok r) :
    r.depth ≤ levels := by
  induction r using nesting.nestedInduction generalizing levels v with
  | step r ih =>
    obtain ⟨-, hpos, hinner⟩ := lines_and_inner_of_check h
    have hdepth : depthAll r.inner ≤ levels - 1 := by
      rw [depthAll_le_iff]
      intro s hs
      have hmem : (.ok s : Check FunctionRecord) ∈ (innerData v).map (check (levels - 1)) := by
        rw [hinner]
        exact List.mem_map_of_mem hs
      obtain ⟨w, -, hw⟩ := List.mem_map.1 hmem
      exact ih s hs hw
    rw [depth_eq]
    omega

/-- At every depth, checking the data at a place gives the record at the same place. -/
theorem map_check_dataAt? (path : List Nat) {v : Value} {r : FunctionRecord}
    (h : check levels v = .ok r) :
    (dataAt? v path).map (check (levels - path.length)) = (nesting.follow? r path).map .ok := by
  induction path generalizing levels v r with
  | nil => simp [dataAt?, Nesting.follow?, h]
  | cons i path ih =>
    obtain ⟨-, -, hinner⟩ := lines_and_inner_of_check h
    have hi : (innerData v)[i]?.map (check (levels - 1)) = r.inner[i]?.map .ok := by
      rw [← List.getElem?_map, ← List.getElem?_map, hinner]
    rw [dataAt?, Nesting.follow?]
    show _ = ((r.inner[i]?).bind _).map _
    cases hdata : (innerData v)[i]? with
    | none =>
      rw [hdata, Option.map_none, eq_comm, Option.map_eq_none_iff] at hi
      rw [hi]
      rfl
    | some w =>
      rw [hdata, Option.map_some, eq_comm, Option.map_eq_some_iff] at hi
      obtain ⟨s, hs, hcheck⟩ := hi
      have hlevels : levels - (i :: path).length = levels - 1 - path.length := by
        rw [List.length_cons]
        omega
      rw [hs, hlevels]
      exact ih hcheck.symm

/-- A record is nested in a checked one if and only if it comes from data nested in its data. -/
theorem mem_walk_iff_of_check {v : Value} {r s : FunctionRecord} (h : check levels v = .ok r) :
    s ∈ r.walk ↔ ∃ path w, dataAt? v path = some w ∧ check (levels - path.length) w = .ok s := by
  refine nesting.mem_preorder.trans (exists_congr fun path => ?_)
  have hpath := map_check_dataAt? path h
  constructor
  · intro hs
    rw [hs, Option.map_some, Option.map_eq_some_iff] at hpath
    exact hpath
  · rintro ⟨w, hw, hcheck⟩
    rw [hw, Option.map_some, hcheck, eq_comm, Option.map_eq_some_iff] at hpath
    obtain ⟨s', hs', heq⟩ := hpath
    cases heq
    exact hs'

/-- The data of a record says that it goes from one line to another. -/
def HasLines (v : Value) (start stop : Int) : Prop :=
  ∃ w, RecordField.lineRange.data? v = some w ∧ LineRange.GivenBy w start stop

theorem hasLines_of_check {v : Value} {r : FunctionRecord} (h : check levels v = .ok r) :
    HasLines v r.lines.start r.lines.stop := by
  obtain ⟨⟨w, hw, hlines⟩, -⟩ := lines_and_inner_of_check h
  exact ⟨w, hw, LineRange.givenBy_of_check hlines⟩

/-- At every depth the data of a record has lines, which are in order. -/
def OrderedLines (v : Value) : Prop :=
  ∀ path w, dataAt? v path = some w → ∃ start stop, HasLines w start stop ∧ 1 ≤ start ∧ start ≤ stop

theorem orderedLines_of_check {v : Value} {r : FunctionRecord} (h : check levels v = .ok r) :
    OrderedLines v := by
  intro path w hw
  have hpath := map_check_dataAt? path h
  rw [hw, Option.map_some, eq_comm, Option.map_eq_some_iff] at hpath
  obtain ⟨s, -, hcheck⟩ := hpath
  have hpos := s.lines.pos
  have hle := s.lines.le
  exact ⟨s.lines.start, s.lines.stop, hasLines_of_check hcheck.symm, by omega, by omega⟩

/-- The lines of a record are those that data at some depth says. -/
theorem exists_hasLines_of_mem_walk {v : Value} {r s : FunctionRecord} (h : check levels v = .ok r)
    (hs : s ∈ r.walk) :
    ∃ path w, dataAt? v path = some w ∧ HasLines w s.lines.start s.lines.stop := by
  obtain ⟨path, w, hw, hcheck⟩ := (mem_walk_iff_of_check h).1 hs
  exact ⟨path, w, hw, hasLines_of_check hcheck⟩

end FunctionRecord

end FunctionInventory
