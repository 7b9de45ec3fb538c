import PerfGate.Grouping
import PerfGate.Proofs.Except

/-!
# Rows — what records spell

A row is a record that is taken as a trial. What it spells, a configuration and the values of the
metrics, is read here from its members alone: neither the line of a record nor the rows around it
have a part in it. From that come the plain descriptions of a list of rows that the groups are held
against: the rows of a configuration, the values of a metric on them, and the configurations in the
order in which they first occur.
-/

namespace PerfGate

namespace Record

/-! ## One row -/

/-- The configuration that a row of the workload spells, if it spells one. -/
def configuration? (w : Workload) (r : Record) : Option Configuration :=
  (Configuration.ofRecord w r).toOption

/-- The value of a metric on a row, if there is one. -/
def value? (m : Metric) (r : Record) : Option Binary64 :=
  (r.get? m.field).bind Field.readNumber?

theorem readField_eq_ok_iff {α : Type} {r : Record} {w : Workload} {type : FieldType}
    {read? : Json.Value → Option α} {name : String} {x : α} :
    r.readField w type read? name = .ok x ↔ (r.get? name).bind read? = some x := by
  unfold readField
  rw [bind_eq_ok_iff]
  cases hv : r.get? name with
  | none => simp [require, hv]
  | some v =>
      simp only [require, hv, Except.ok.injEq, exists_eq_left', Option.bind_some]
      cases read? v with
      | none => simp [throw, throwThe, MonadExceptOf.throw]
      | some y => simp [pure, Except.pure]

/-- A configuration is read from four fields. -/
theorem configuration?_eq_some_iff {w : Workload} {r : Record} {c : Configuration} :
    r.configuration? w = some c ↔
      (r.get? "name").bind Field.readString? = some c.name ∧
      (r.get? "dim_bits").bind Field.readInteger? = some c.dimBits ∧
      (r.get? "capacity").bind Field.readInteger? = some c.capacity ∧
      (r.get? w.sizeField).bind Field.readInteger? = some c.size := by
  simp only [configuration?, toOption_eq_some_iff, Configuration.ofRecord, bind_eq_ok_iff,
    readField_eq_ok_iff]
  constructor
  · rintro ⟨name, hn, dimBits, hd, capacity, hc, size, hs, h⟩
    cases h
    exact ⟨hn, hd, hc, hs⟩
  · rintro ⟨hn, hd, hc, hs⟩
    exact ⟨_, hn, _, hd, _, hc, _, hs, rfl⟩

/-- A trial is a configuration and one value for each metric. -/
theorem trial_eq_ok_iff {w : Workload} {r : Record} {t : Trial} :
    Trial.ofRecord w r = .ok t ↔
      r.configuration? w = some t.configuration ∧
      List.Forall₂ (fun m x => r.value? m = some x) w.metrics t.values := by
  simp only [configuration?, value?, toOption_eq_some_iff, Trial.ofRecord, bind_eq_ok_iff,
    mapM_eq_ok_iff, readField_eq_ok_iff]
  constructor
  · rintro ⟨c, hc, xs, hxs, h⟩
    cases h
    exact ⟨hc, hxs⟩
  · rintro ⟨hc, hxs⟩
    exact ⟨_, hc, _, hxs, rfl⟩

/-- A record is a trial of a workload if it spells a configuration and every metric. -/
def IsTrial (w : Workload) (r : Record) : Prop :=
  (r.configuration? w).isSome ∧ ∀ m ∈ w.metrics, (r.value? m).isSome

instance (w : Workload) (r : Record) : Decidable (r.IsTrial w) :=
  inferInstanceAs (Decidable (_ ∧ ∀ m ∈ w.metrics, _))

theorem isTrial_iff {w : Workload} {r : Record} :
    r.IsTrial w ↔ ∃ t, Trial.ofRecord w r = .ok t := by
  simp only [IsTrial, Option.isSome_iff_exists, trial_eq_ok_iff]
  constructor
  · rintro ⟨⟨c, hc⟩, hvalues⟩
    obtain ⟨xs, hxs⟩ := exists_forall₂_iff.2 hvalues
    exact ⟨⟨c, xs⟩, hc, hxs⟩
  · rintro ⟨t, hc, hvalues⟩
    exact ⟨⟨_, hc⟩, exists_forall₂_iff.1 ⟨_, hvalues⟩⟩

/-- The row that spells a configuration and values of the metrics with integers. -/
def spelling (w : Workload) (line : Nat) (c : Configuration) (values : List Int) : Record where
  line := line
  members :=
    [("name", .string c.name), ("dim_bits", .integer c.dimBits), ("capacity", .integer c.capacity),
      (w.sizeField, .integer c.size)] ++
    (w.metrics.zip values).map fun (m, x) => (m.field, .integer x)

/-! ### Only the members count -/

theorem get?_congr {r s : Record} (h : r.members = s.members) (name : String) :
    r.get? name = s.get? name := by
  unfold get?
  rw [h]

theorem value?_congr {r s : Record} (h : r.members = s.members) (m : Metric) :
    r.value? m = s.value? m := by
  unfold value?
  rw [get?_congr h]

theorem configuration?_congr {r s : Record} (h : r.members = s.members) (w : Workload) :
    r.configuration? w = s.configuration? w := by
  apply Option.ext
  intro c
  simp only [configuration?_eq_some_iff, get?_congr h]

theorem trial_congr {r s : Record} (h : r.members = s.members) {w : Workload} {t : Trial} :
    Trial.ofRecord w r = .ok t ↔ Trial.ofRecord w s = .ok t := by
  simp only [trial_eq_ok_iff, configuration?_congr h, value?_congr h]

end Record

/-! ## Lists of rows -/

namespace Rows

/-- The rows of a configuration, in order. -/
def ofConfiguration (w : Workload) (rs : List Record) (c : Configuration) : List Record :=
  rs.filter fun r => r.configuration? w = some c

/-- The values of a metric on the rows of a configuration, in order. -/
def values (w : Workload) (rs : List Record) (c : Configuration) (m : Metric) : List Binary64 :=
  (ofConfiguration w rs c).filterMap (·.value? m)

/-- The configurations of rows, in the order in which they first occur. -/
def configurations (w : Workload) (rs : List Record) : List Configuration :=
  (rs.filterMap (·.configuration? w)).eraseDups

/-- The summary of the rows of a configuration. -/
def group (w : Workload) (rs : List Record) (c : Configuration) : Group where
  configuration := c
  trials := (ofConfiguration w rs c).length
  stats := w.metrics.map fun m => (m, Stats.ofList (values w rs c m))

/-- No value is lost: each row of a configuration has its value of a metric. -/
theorem map_value?_eq {w : Workload} {rs : List Record} (h : ∀ r ∈ rs, r.IsTrial w)
    (c : Configuration) {m : Metric} (hm : m ∈ w.metrics) :
    (ofConfiguration w rs c).map (·.value? m) = (values w rs c m).map some := by
  rw [values, List.map_filterMap_some_eq_filter_map_isSome, eq_comm, List.filter_eq_self]
  intro v hv
  obtain ⟨r, hr, rfl⟩ := List.mem_map.1 hv
  exact (h r (List.mem_of_mem_filter hr)).2 m hm

theorem values_length {w : Workload} {rs : List Record} (h : ∀ r ∈ rs, r.IsTrial w)
    (c : Configuration) {m : Metric} (hm : m ∈ w.metrics) :
    (values w rs c m).length = (ofConfiguration w rs c).length := by
  have hlength := congrArg List.length (map_value?_eq h c hm)
  simpa using hlength.symm

theorem mem_configurations {w : Workload} {rs : List Record} {c : Configuration} :
    c ∈ configurations w rs ↔ ofConfiguration w rs c ≠ [] := by
  unfold configurations ofConfiguration
  rw [List.mem_eraseDups, List.mem_filterMap]
  constructor
  · rintro ⟨r, hr, hc⟩
    exact List.ne_nil_of_mem (List.mem_filter.2 ⟨hr, by simpa using hc⟩)
  · intro h
    obtain ⟨r, hr⟩ := List.exists_mem_of_ne_nil _ h
    obtain ⟨hmem, hc⟩ := List.mem_filter.1 hr
    exact ⟨r, hmem, by simpa using hc⟩

end Rows

end PerfGate
