import PerfGate.Proofs.Grouping.Refinement

/-!
# Grouping — the first fault

Records are grouped all together or not at all. They are read one after another, and each of them
field by field: first what was run, then what was measured (`Workload.trialFields`). A field is at
fault if the record does not have it, or has a value that cannot be read as one of its type, and the
error is the fault of the first such field of the first record with one (`ofRecords_first_fault`).
Neither the fields behind it nor the records behind its record have a part in it.
-/

namespace PerfGate

/-! ## Fields -/

/-- Whether a value can be read as a field of the type. -/
def FieldType.accepts : FieldType → Json.Value → Bool
  | .string, value => (Field.readString? value).isSome
  | .integer, value => (Field.readInteger? value).isSome
  | .number, value => (Field.readNumber? value).isSome

namespace Workload

/-- The fields that a configuration is read from, in the order of reading. -/
def keyFields (w : Workload) : List (String × FieldType) :=
  [("name", .string), ("dim_bits", .integer), ("capacity", .integer), (w.sizeField, .integer)]

/-- The fields that a trial is read from, in the order of reading. -/
def trialFields (w : Workload) : List (String × FieldType) :=
  w.keyFields ++ w.metrics.map fun m => (m.field, .number)

end Workload

namespace Record

/-- A record gives a field if it has it, with a value that can be read. -/
def Gives (r : Record) (field : String × FieldType) : Prop :=
  ∃ value ∈ r.get? field.1, field.2.accepts value = true

instance (r : Record) (field : String × FieldType) : Decidable (r.Gives field) :=
  inferInstanceAs (Decidable (∃ value ∈ r.get? field.1, _))

/-- What is wrong with a field that a record does not give. The error names the field, and the line
of the record. -/
inductive FaultOf (w : Workload) (r : Record) : String × FieldType → Error → Prop where
  | missing {name : String} {type : FieldType} (h : r.get? name = none) :
      FaultOf w r (name, type) (.missingFields w r.line [name])
  | unreadable {name : String} {type : FieldType} {value : Json.Value}
      (h : r.get? name = some value) (hvalue : type.accepts value = false) :
      FaultOf w r (name, type) (.invalidField name r.line type value)

/-- The fault of a field, if there is one. -/
def fault? (w : Workload) (r : Record) (field : String × FieldType) : Option Error :=
  match r.get? field.1 with
  | none => some (.missingFields w r.line [field.1])
  | some value =>
    if field.2.accepts value then none else some (.invalidField field.1 r.line field.2 value)

section Faults

variable {w : Workload} {r : Record} {field : String × FieldType}

theorem fault?_eq_some_iff {e : Error} : r.fault? w field = some e ↔ r.FaultOf w field e := by
  obtain ⟨name, type⟩ := field
  unfold fault?
  constructor
  · intro h
    split at h
    · rename_i hget
      cases h
      exact .missing hget
    · rename_i value hget
      split at h
      · cases h
      · rename_i hvalue
        cases h
        exact .unreadable hget (Bool.eq_false_iff.2 hvalue)
  · intro h
    cases h with
    | missing hget => simp [hget]
    | unreadable hget hvalue => simp [hget, hvalue]

theorem fault?_eq_none_iff : r.fault? w field = none ↔ r.Gives field := by
  unfold fault? Gives
  cases r.get? field.1 with
  | none => simp
  | some value => cases field.2.accepts value <;> simp

end Faults

/-! ## Reading one record -/

variable {w : Workload} {r : Record}

theorem error?_readField {α : Type} {type : FieldType} {read? : Json.Value → Option α}
    (hread : ∀ value, type.accepts value = (read? value).isSome) (name : String) :
    error? (r.readField w type read? name) = [(name, type)].findSome? (r.fault? w) := by
  unfold readField require fault?
  rw [List.findSome?_singleton]
  cases r.get? name with
  | none => rfl
  | some value =>
      simp only [hread]
      cases h : read? value with
      | none => simp [bind, Except.bind, h, throw, throwThe, MonadExceptOf.throw, error?]
      | some x => simp [bind, Except.bind, h, pure, Except.pure, error?]

/-- Reading a configuration looks at its fields one after another. -/
theorem error?_configuration :
    error? (Configuration.ofRecord w r) = w.keyFields.findSome? (r.fault? w) := by
  have hend : ∀ c : Configuration, error? (pure c : Except Error Configuration) =
      [].findSome? (r.fault? w) := fun _ => rfl
  have hstring : ∀ name, error? (r.readField w .string Field.readString? name) =
      [(name, .string)].findSome? (r.fault? w) := error?_readField fun _ => rfl
  have hinteger : ∀ name, error? (r.readField w .integer Field.readInteger? name) =
      [(name, .integer)].findSome? (r.fault? w) := error?_readField fun _ => rfl
  unfold Configuration.ofRecord
  refine error?_bind_eq [_] (hstring "name") fun name _ => ?_
  refine error?_bind_eq [_] (hinteger "dim_bits") fun dimBits _ => ?_
  refine error?_bind_eq [_] (hinteger "capacity") fun capacity _ => ?_
  exact error?_bind_eq [_] (hinteger w.sizeField) fun size _ => hend _

/-- **The first bad field is the error of a record**: the configuration comes before the metrics. -/
theorem error?_trial : error? (Trial.ofRecord w r) = w.trialFields.findSome? (r.fault? w) := by
  unfold Trial.ofRecord Workload.trialFields
  refine error?_bind_eq w.keyFields error?_configuration fun c _ => ?_
  rw [← List.append_nil (w.metrics.map _)]
  refine error?_bind_eq _ ?_ fun values _ => rfl
  have hmetric : ∀ m : Metric, error? (r.readField w .number Field.readNumber? m.field) =
      r.fault? w (m.field, .number) := by
    intro m
    rw [error?_readField fun _ => rfl, List.findSome?_singleton]
  simp only [error?_mapM, List.findSome?_map, hmetric, Function.comp_def]

theorem trial_eq_error_iff {e : Error} : Trial.ofRecord w r = .error e ↔
    ∃ fields field others, w.trialFields = fields ++ field :: others ∧
      (∀ f ∈ fields, r.Gives f) ∧ r.FaultOf w field e := by
  rw [← error?_eq_some_iff, error?_trial, List.findSome?_eq_some_iff]
  simp only [fault?_eq_some_iff, fault?_eq_none_iff]
  constructor
  · rintro ⟨fields, field, others, hsplit, hfault, hfields⟩
    exact ⟨fields, field, others, hsplit, hfields, hfault⟩
  · rintro ⟨fields, field, others, hsplit, hfields, hfault⟩
    exact ⟨fields, field, others, hsplit, hfault, hfields⟩

theorem exists_trial_iff :
    (∃ t, Trial.ofRecord w r = .ok t) ↔ ∀ field ∈ w.trialFields, r.Gives field := by
  rw [← error?_eq_none_iff, error?_trial, List.findSome?_eq_none_iff]
  simp only [fault?_eq_none_iff]

end Record

/-! ## Reading the records -/

namespace Grouping

variable {w : Workload} {rs : List Record} {e : Error}

theorem ofRecords_eq_error_iff : ofRecords w rs = .error e ↔
    ∃ before r after, rs = before ++ r :: after ∧
      (∀ s ∈ before, ∀ field ∈ w.trialFields, s.Gives field) ∧
      ∃ fields field others, w.trialFields = fields ++ field :: others ∧
        (∀ f ∈ fields, r.Gives f) ∧ r.FaultOf w field e := by
  simp only [ofRecords, map_eq_error_iff, mapM_eq_error_iff, Record.exists_trial_iff,
    Record.trial_eq_error_iff]

/-- Records are refused exactly if one of them does not give a field that a trial is read from. The
error is the fault of the first such record, with its line, and of the first such field of it: all
records before give all fields, and the record itself gives all fields before. Whatever records come
behind, the error stays. -/
theorem ofRecords_first_fault (w : Workload) :
    (∀ rs, (∃ e, ofRecords w rs = .error e) ↔
      ∃ r ∈ rs, ∃ field ∈ w.trialFields, ¬ r.Gives field) ∧
    (∀ rs e, ofRecords w rs = .error e ↔
      ∃ before r after, rs = before ++ r :: after ∧
        (∀ s ∈ before, ∀ field ∈ w.trialFields, s.Gives field) ∧
        ∃ fields field others, w.trialFields = fields ++ field :: others ∧
          (∀ f ∈ fields, r.Gives f) ∧ r.FaultOf w field e) ∧
    (∀ rs rs' e, ofRecords w rs = .error e → ofRecords w (rs ++ rs') = .error e) := by
  refine ⟨fun rs => ?_, fun rs e => ofRecords_eq_error_iff, fun rs rs' e h => ?_⟩
  · have hok : (∃ e, ofRecords w rs = .error e) ↔ ¬ ∃ g, ofRecords w rs = .ok g := by
      cases ofRecords w rs <;> simp
    have hfields : (∃ g, ofRecords w rs = .ok g) ↔
        ∀ r ∈ rs, ∀ field ∈ w.trialFields, r.Gives field := by
      simp only [exists_ofRecords_iff, Record.isTrial_iff, Record.exists_trial_iff]
    rw [hok, hfields]
    simp only [not_forall, exists_prop]
  · rw [ofRecords_eq_error_iff] at h ⊢
    obtain ⟨before, r, after, rfl, hfault⟩ := h
    exact ⟨before, r, after ++ rs', by simp, hfault⟩

/-- A trial, a record whose size is no number and whose throughput is missing, and an empty record. -/
def faultyRows : List Record :=
  let row := Record.spelling .am 3 ⟨"a", 256, 16, 10⟩ [100, 2]
  let unmeasured := row.members.filter fun m => m.1 ≠ "queries_per_sec"
  [row, ⟨5, Json.Members.set "size" (.string "ten") unmeasured⟩, ⟨6, []⟩]

/-- The size is read before the throughput, and the empty record not at all. -/
theorem faultyRows_first_fault :
    ofRecords .am (faultyRows.take 2) = .error (.invalidField "size" 5 .integer (.string "ten")) ∧
    ofRecords .am faultyRows = .error (.invalidField "size" 5 .integer (.string "ten")) := by
  obtain ⟨-, hfirst, hlater⟩ := ofRecords_first_fault .am
  have hfault : ofRecords .am (faultyRows.take 2) =
      .error (.invalidField "size" 5 .integer (.string "ten")) := by
    rw [hfirst]
    refine ⟨faultyRows.take 1, faultyRows[1], [], rfl, by decide, ?_⟩
    exact ⟨Workload.am.keyFields.take 3, ("size", .integer), _, rfl, by decide,
      .unreadable rfl (by decide)⟩
  exact ⟨hfault, hlater _ (faultyRows.drop 2) _ hfault⟩

end Grouping

end PerfGate
