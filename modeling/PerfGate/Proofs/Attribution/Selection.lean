import PerfGate.Attribution
import PerfGate.Proofs.Rows.Basic

/-!
# Attribution — a record belongs to at most one workload

Selecting a workload goes from record to record and stops at one that carries the fields of both. In
closed form (`select_eq`) it is a search for such a record, the same for both workloads, and a filter
if there is none. What is kept lacks nothing that is looked at later: every field that a trial is
read from is a required one, so reading it can fail at its value only (`Rejects`).
-/

namespace PerfGate

/-- Whether a record carries all fields of both workloads. -/
def Record.isAmbiguous (r : Record) : Bool :=
  Workload.am.matchesRecord r && Workload.cluster.matchesRecord r

/-- An error that rejects the value of a field that the record has. -/
def Error.Rejects (r : Record) (e : Error) : Prop :=
  ∃ name type value, r.get? name = some value ∧ e = .invalidField name r.line type value

/-! ## Selecting -/

namespace Workload

variable {w : Workload} {r : Record} {rs kept : List Record}

theorem missingFields_eq_nil_iff : w.missingFields r = [] ↔ w.matchesRecord r = true := by
  simp [missingFields, matchesRecord]

theorem has_of_matchesRecord (h : w.matchesRecord r = true) {name : String}
    (hname : name ∈ w.requiredFields) : r.has name = true :=
  List.all_eq_true.1 h name hname

/-- Carrying the fields of both is the same from either workload. -/
theorem isAmbiguous_iff (w : Workload) :
    r.isAmbiguous = true ↔ w.matchesRecord r = true ∧ w.other.matchesRecord r = true := by
  cases w with
  | am => simp [Record.isAmbiguous, other]
  | cluster => simp [Record.isAmbiguous, other, and_comm]

/-- **Selecting in closed form**: the first record that carries the fields of both workloads is the
error, and without one the records that match are kept. -/
theorem select_eq (w : Workload) (rs : List Record) :
    w.select rs = match rs.find? Record.isAmbiguous with
      | some r => .error (.ambiguousRecord r.line)
      | none => .ok (rs.filter w.matchesRecord) := by
  induction rs with
  | nil => rfl
  | cons r rest ih =>
      have hboth := isAmbiguous_iff (r := r) w
      rw [select, ih, List.find?_cons, List.filter_cons]
      by_cases hmatches : w.matchesRecord r = true
      · by_cases hother : w.other.matchesRecord r = true
        · -- the search stops here
          simp [hmatches, hother, hboth.2 ⟨hmatches, hother⟩]
        · have hnot : r.isAmbiguous = false :=
            Bool.eq_false_iff.2 fun h => hother (hboth.1 h).2
          simp only [hmatches, hother, hnot, if_true, Bool.false_eq_true, if_false]
          cases rest.find? Record.isAmbiguous <;> rfl
      · have hnot : r.isAmbiguous = false :=
          Bool.eq_false_iff.2 fun h => hmatches (hboth.1 h).1
        simp only [hmatches, hnot, Bool.false_eq_true, if_false]

theorem select_eq_error_iff {e : Error} : w.select rs = .error e ↔
    ∃ r, rs.find? Record.isAmbiguous = some r ∧ e = .ambiguousRecord r.line := by
  rw [select_eq]
  cases rs.find? Record.isAmbiguous with
  | none => simp
  | some r => simp [eq_comm]

theorem select_eq_ok_iff : w.select rs = .ok kept ↔
    (∀ r ∈ rs, r.isAmbiguous = false) ∧ kept = rs.filter w.matchesRecord := by
  rw [select_eq]
  cases h : rs.find? Record.isAmbiguous with
  | none =>
      rw [List.find?_eq_none] at h
      have hnone : ∀ r ∈ rs, r.isAmbiguous = false :=
        fun r hr => Bool.eq_false_iff.2 (h r hr)
      rw [Except.ok.injEq, eq_comm]
      exact ⟨fun hkept => ⟨hnone, hkept⟩, fun hkept => hkept.2⟩
  | some r =>
      have hmem := List.mem_of_find?_eq_some h
      have hboth := List.find?_some h
      simp only [reduceCtorEq, false_iff, not_and]
      intro hnone
      rw [hnone r hmem] at hboth
      cases hboth

/-- Selecting goes from record to record. -/
theorem select_append_eq_ok_iff {before after rows : List Record} :
    w.select (before ++ after) = .ok rows ↔
      ∃ rs, w.select before = .ok rs ∧ ∃ rs', w.select after = .ok rs' ∧ rows = rs ++ rs' := by
  simp only [select_eq_ok_iff, List.forall_mem_append, List.filter_append]
  constructor
  · rintro ⟨⟨hbefore, hafter⟩, rfl⟩
    exact ⟨_, ⟨hbefore, rfl⟩, _, ⟨hafter, rfl⟩, rfl⟩
  · rintro ⟨_, ⟨hbefore, rfl⟩, _, ⟨hafter, rfl⟩, rfl⟩
    exact ⟨⟨hbefore, hafter⟩, rfl⟩

/-! ### What is kept -/

theorem matchesRecord_of_select (h : w.select rs = .ok kept) (hr : r ∈ kept) :
    w.matchesRecord r = true := by
  obtain ⟨-, rfl⟩ := select_eq_ok_iff.1 h
  exact (List.mem_filter.1 hr).2

/-- What is kept is no record of the other workload. -/
theorem other_matchesRecord_of_select (h : w.select rs = .ok kept) (hr : r ∈ kept) :
    w.other.matchesRecord r = false := by
  obtain ⟨hnone, rfl⟩ := select_eq_ok_iff.1 h
  obtain ⟨hmem, hmatches⟩ := List.mem_filter.1 hr
  have hnot := hnone r hmem
  by_contra hother
  rw [Bool.not_eq_false] at hother
  rw [(isAmbiguous_iff w).2 ⟨hmatches, hother⟩] at hnot
  cases hnot

theorem isAmbiguous_of_select (h : w.select rs = .ok kept) (hr : r ∈ kept) :
    r.isAmbiguous = false := by
  obtain ⟨hnone, rfl⟩ := select_eq_ok_iff.1 h
  exact hnone r (List.mem_filter.1 hr).1

/-- Selecting again changes nothing. -/
theorem select_self_of_select (h : w.select rs = .ok kept) : w.select kept = .ok kept := by
  refine select_eq_ok_iff.2 ⟨fun r => isAmbiguous_of_select h, ?_⟩
  rw [eq_comm, List.filter_eq_self]
  exact fun r => matchesRecord_of_select h

/-- Nothing is left for the other workload. -/
theorem select_other_of_select (h : w.select rs = .ok kept) : w.other.select kept = .ok [] := by
  refine select_eq_ok_iff.2 ⟨fun r => isAmbiguous_of_select h, ?_⟩
  rw [eq_comm, List.filter_eq_nil_iff]
  intro r hr
  rw [other_matchesRecord_of_select h hr]
  exact Bool.false_ne_true

theorem requireFrom_of_matchesRecord (h : ∀ r ∈ rs, w.matchesRecord r = true) (row : Nat) :
    w.requireFrom row rs = .ok () := by
  induction rs generalizing row with
  | nil => rfl
  | cons r rest ih =>
      rw [List.forall_mem_cons] at h
      rw [requireFrom, missingFields_eq_nil_iff.2 h.1]
      exact ih h.2 (row + 1)

/-- Filtering keeps what carries all fields, so nothing is missing afterwards. -/
theorem require_of_select (h : w.select rs = .ok kept) : w.require kept = .ok () :=
  requireFrom_of_matchesRecord (fun _ => matchesRecord_of_select h) 0

/-! ## Reading what is kept -/

/-- The fields that a configuration is read from. -/
def configurationFields (w : Workload) : List String := ["name", "dim_bits", "capacity", w.sizeField]

theorem configurationFields_subset (w : Workload) : w.configurationFields ⊆ w.requiredFields := by
  cases w <;> decide

theorem metricFields_subset (w : Workload) : w.metrics.map Metric.field ⊆ w.requiredFields := by
  cases w <;> decide

end Workload

/-- A field that is there is never reported as missing. -/
theorem Record.rejects_of_readField {α : Type} {r : Record} {w : Workload} {type : FieldType}
    {read? : Json.Value → Option α} {name : String} {e : Error} (hhas : r.has name = true)
    (h : r.readField w type read? name = .error e) : e.Rejects r := by
  obtain ⟨value, hvalue⟩ := Option.isSome_iff_exists.1 hhas
  have hrequire : r.require w name = .ok value := by
    unfold require
    rw [hvalue]
  unfold readField at h
  rw [hrequire] at h
  cases hread : read? value with
  | some x => simp [hread, bind, Except.bind, pure, Except.pure] at h
  | none =>
      simp only [hread, bind, Except.bind, throw, throwThe, MonadExceptOf.throw,
        Except.error.injEq] at h
      exact ⟨name, type, value, hvalue, h.symm⟩

section Reading

variable {w : Workload} {r : Record} {e : Error}

theorem Configuration.rejects_of_ofRecord (hhas : ∀ name ∈ w.configurationFields, r.has name = true)
    (h : ofRecord w r = .error e) : e.Rejects r := by
  simp only [Workload.configurationFields, List.forall_mem_cons] at hhas
  obtain ⟨hname, hdimBits, hcapacity, hsize, -⟩ := hhas
  simp only [ofRecord, bind_eq_error_iff] at h
  rcases h with h | ⟨_, _, h | ⟨_, _, h | ⟨_, _, h | ⟨_, _, h⟩⟩⟩⟩
  · exact Record.rejects_of_readField hname h
  · exact Record.rejects_of_readField hdimBits h
  · exact Record.rejects_of_readField hcapacity h
  · exact Record.rejects_of_readField hsize h
  · cases h

/-- **The required fields cover what a trial is read from**: of a record that matches, only a value
can be wrong. -/
theorem Trial.rejects_of_ofRecord (hmatches : w.matchesRecord r = true)
    (h : ofRecord w r = .error e) : e.Rejects r := by
  have hhas : ∀ name ∈ w.requiredFields, r.has name = true :=
    fun _ => Workload.has_of_matchesRecord hmatches
  simp only [ofRecord, bind_eq_error_iff] at h
  rcases h with h | ⟨_, _, h | ⟨_, _, h⟩⟩
  · exact Configuration.rejects_of_ofRecord
      (fun name hname => hhas name (w.configurationFields_subset hname)) h
  · obtain ⟨m, hm, h⟩ := exists_mem_of_mapM_eq_error h
    exact Record.rejects_of_readField
      (hhas _ (w.metricFields_subset (List.mem_map_of_mem hm))) h
  · cases h

theorem Grouping.rejects_of_ofRecords {rs : List Record}
    (hmatches : ∀ r ∈ rs, w.matchesRecord r = true) (h : ofRecords w rs = .error e) :
    ∃ r ∈ rs, e.Rejects r := by
  rw [ofRecords, map_eq_error_iff] at h
  obtain ⟨r, hr, h⟩ := exists_mem_of_mapM_eq_error h
  exact ⟨r, hr, Trial.rejects_of_ofRecord (hmatches r hr) h⟩

end Reading

/-! ## Attribution -/

namespace Workload

/-- Records are attributed to both workloads in one way. A list with a record that carries all fields
of both is refused for either workload, with the line of the first such record, and no other list is
refused. Otherwise a workload keeps the records that lack none of its fields, in their order. It
shares none with the other workload; selecting them again keeps all of them, and none for the other
workload; and nothing that is looked at later is missing: if they are no trials, a value is wrong. -/
theorem select_attributes (rs : List Record) :
    (∀ w : Workload, (∃ e, w.select rs = .error e) ↔ ∃ r ∈ rs, r.isAmbiguous = true) ∧
    (∀ (w : Workload) (e : Error), w.select rs = .error e → ∃ before r after,
      rs = before ++ r :: after ∧ r.isAmbiguous = true ∧
      (∀ s ∈ before, s.isAmbiguous = false) ∧ e = .ambiguousRecord r.line) ∧
    (∀ (w : Workload) (kept : List Record), w.select rs = .ok kept →
      kept = rs.filter (fun r => w.missingFields r = []) ∧
      (∀ others, w.other.select rs = .ok others → kept.Disjoint others) ∧
      w.select kept = .ok kept ∧ w.other.select kept = .ok [] ∧ w.require kept = .ok () ∧
      (∀ e, Grouping.ofRecords w kept = .error e → ∃ r ∈ kept, e.Rejects r)) := by
  refine ⟨fun w => ?_, fun w e he => ?_, fun w kept h => ?_⟩
  · simp only [select_eq_error_iff]
    constructor
    · rintro ⟨_, r, hr, -⟩
      exact ⟨r, List.mem_of_find?_eq_some hr, List.find?_some hr⟩
    · intro hr
      obtain ⟨r, hfind⟩ := Option.isSome_iff_exists.1 (List.find?_isSome.2 hr)
      exact ⟨_, r, hfind, rfl⟩
  · obtain ⟨r, hfind, rfl⟩ := select_eq_error_iff.1 he
    obtain ⟨hboth, before, after, hsplit, hbefore⟩ := List.find?_eq_some_iff_append.1 hfind
    exact ⟨before, r, after, hsplit, hboth, fun s hs => by simpa using hbefore s hs, rfl⟩
  · refine ⟨?_, fun others hothers r hr hr' => ?_, select_self_of_select h,
      select_other_of_select h, require_of_select h, fun e he => ?_⟩
    · simp only [missingFields_eq_nil_iff, Bool.decide_eq_true]
      exact (select_eq_ok_iff.1 h).2
    · have hother := other_matchesRecord_of_select h hr
      rw [matchesRecord_of_select hothers hr'] at hother
      cases hother
    · exact Grouping.rejects_of_ofRecords (fun _ => matchesRecord_of_select h) he

/-- A record with the value one in each of its fields. -/
def ones (line : Nat) (names : List String) : Record := ⟨line, names.map (·, .integer 1)⟩

/-- A record of either workload, and one that lacks a field. -/
def mixedRecords : List Record :=
  [ones 3 cluster.requiredFields, ones 5 am.requiredFields, ones 6 am.requiredFields.tail]

/-- A record that carries the fields of both. -/
def ambiguousRecord : Record := ones 8 (am.requiredFields ++ cluster.requiredFields)

/-- The name of a configuration is no number, so the record that is kept is no trial. -/
theorem mixedRecords_attributed :
    am.select mixedRecords = .ok [ones 5 am.requiredFields] ∧
    am.select [ones 5 am.requiredFields] = .ok [ones 5 am.requiredFields] ∧
    cluster.select [ones 5 am.requiredFields] = .ok [] ∧
    (∃ e, Grouping.ofRecords am [ones 5 am.requiredFields] = .error e ∧
      e.Rejects (ones 5 am.requiredFields)) ∧
    ∀ w : Workload, ∃ e, w.select (mixedRecords ++ [ambiguousRecord]) = .error e := by
  have hnone : ∀ r ∈ mixedRecords, r.isAmbiguous = false := by decide
  have hkept : [ones 5 am.requiredFields] = mixedRecords.filter am.matchesRecord := rfl
  have hselect : am.select mixedRecords = .ok [ones 5 am.requiredFields] :=
    select_eq_ok_iff.2 ⟨hnone, hkept⟩
  obtain ⟨-, -, hattributes⟩ := select_attributes mixedRecords
  obtain ⟨-, -, hself, hother, -, hrejects⟩ := hattributes am _ hselect
  have herror : (error? (Grouping.ofRecords am [ones 5 am.requiredFields])).isSome := by decide
  simp only [Option.isSome_iff_exists, error?_eq_some_iff] at herror
  obtain ⟨e, he⟩ := herror
  obtain ⟨r, hr, hrejected⟩ := hrejects e he
  rw [List.mem_singleton] at hr
  refine ⟨hselect, hself, hother, ⟨e, he, hr ▸ hrejected⟩, fun w => ?_⟩
  exact ((select_attributes _).1 w).2 ⟨ambiguousRecord, by simp, by decide⟩

end Workload

end PerfGate
