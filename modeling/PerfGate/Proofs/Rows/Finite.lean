import PerfGate.Proofs.Json.Finite
import PerfGate.Proofs.Rows.Basic
import PerfGate.Proofs.Stats.Defined

/-!
# Rows — rows hold finite numbers

Records that are read from a log hold finite numbers only (`Log.parse_finite`), and the text of an
infinity or a NaN is no number field (`Field.readNumber?_isFinite`). So every value that a row adds
to a series is finite (`values_isFinite`), and the summary of the rows of a configuration is made of
numbers (`stats_defined`).
-/

namespace PerfGate

/-- A record of finite numbers: whatever its members hold, no infinity and no NaN is among it. -/
def Record.Finite (r : Record) : Prop := ∀ m ∈ r.members, m.2.Finite

/-! ## Records of a log -/

namespace Log

theorem readLine_finite {path : String} {number : Nat} {line : List Char} {record? : Option Record}
    (h : readLine path number line = .ok record?) : ∀ r ∈ record?, r.Finite := by
  unfold readLine at h
  split at h
  · split at h
    · rename_i members hmembers
      cases h
      intro r hr
      cases hr
      exact Json.parseObject?_finite hmembers
    · cases h
  · cases h
    simp

theorem readLines_finite {path : String} {first : Nat} {lines : List (List Char)}
    {records : List Record} (h : readLines path first lines = .ok records) :
    ∀ r ∈ records, r.Finite := by
  induction lines generalizing first records with
  | nil =>
      cases h
      simp
  | cons line rest ih =>
      simp only [readLines, bind_eq_ok_iff] at h
      obtain ⟨record?, hline, others, hothers, heq⟩ := h
      cases heq
      rw [List.forall_mem_append]
      exact ⟨fun r hr => readLine_finite hline r (Option.mem_toList.1 hr), ih hothers⟩

/-- **Every record of a log is one of finite numbers.** -/
theorem parse_finite {path text : String} {records : List Record}
    (h : parse path text = .ok records) : ∀ r ∈ records, r.Finite :=
  readLines_finite h

end Log

namespace Record

/-- The row that spells a configuration with integers, and values of the metrics as doubles. -/
def measuring (w : Workload) (line : Nat) (c : Configuration) (values : List Binary64) :
    Record where
  line := line
  members :=
    [("name", .string c.name), ("dim_bits", .integer c.dimBits), ("capacity", .integer c.capacity),
      (w.sizeField, .integer c.size)] ++
    (w.metrics.zip values).map fun (m, x) => (m.field, .real x)

theorem finite_measuring {w : Workload} {line : Nat} {c : Configuration} {values : List Binary64}
    (hc : ∀ i ∈ [c.dimBits, c.capacity, c.size], i.natAbs < 1 <<< 64)
    (hvalues : ∀ x ∈ values, x.isFinite) : (measuring w line c values).Finite := by
  simp only [List.forall_mem_cons, List.not_mem_nil, false_imp_iff, implies_true, and_true] at hc
  unfold Finite measuring
  simp only [List.forall_mem_append, List.forall_mem_cons, List.not_mem_nil, false_imp_iff,
    implies_true, and_true, List.forall_mem_map]
  refine ⟨⟨.string, .integer hc.1, .integer hc.2.1, .integer hc.2.2⟩, ?_⟩
  rintro ⟨m, x⟩ hmember
  exact .real (hvalues x (List.of_mem_zip hmember).2)

end Record

/-! ## Values of metrics -/

/-- A number field is finite: as a number, because all numbers are, and as a text, because texts of
other values are refused. -/
theorem Field.readNumber?_isFinite {v : Json.Value} {x : Binary64} (hv : v.Finite)
    (h : readNumber? v = some x) : x.isFinite := by
  cases hv with
  | integer hi =>
      cases h
      exact Binary64.isFinite_ofRatio_one (Nat.le_of_lt hi) (by decide)
  | real hx =>
      cases h
      exact hx
  | string => exact (Option.filter_eq_some_iff.1 h).2
  | null => cases h
  | bool => cases h
  | array => cases h
  | object => cases h

theorem Record.value?_isFinite {r : Record} (hr : r.Finite) {m : Metric} {x : Binary64}
    (h : r.value? m = some x) : x.isFinite := by
  obtain ⟨v, hv, hx⟩ := Option.bind_eq_some_iff.1 h
  exact Field.readNumber?_isFinite (hr _ (lookup_mem hv)) hx

namespace Rows

variable {w : Workload} {rs : List Record}

theorem values_isFinite (hrs : ∀ r ∈ rs, r.Finite) (c : Configuration) (m : Metric) :
    ∀ x ∈ values w rs c m, x.isFinite := by
  intro x hx
  obtain ⟨r, hr, hvalue⟩ := List.mem_filterMap.1 hx
  exact Record.value?_isFinite (hrs r (List.mem_of_mem_filter hr)) hvalue

theorem length_values_le (c : Configuration) (m : Metric) :
    (values w rs c m).length ≤ rs.length :=
  (List.length_filterMap_le _ _).trans (List.length_filter_le _ _)

/-- The summary of a metric on the rows of a configuration is made of numbers. -/
theorem stats_defined (hrs : ∀ r ∈ rs, r.Finite) (hlen : rs.length < UInt64.size)
    (c : Configuration) (m : Metric) : (Stats.ofList (values w rs c m)).Defined :=
  Stats.ofList_defined (values_isFinite hrs c m) ((length_values_le c m).trans_lt hlen)

end Rows

end PerfGate
