import PerfGate.Attribution
import PerfGate.Proofs.Assessment.Floor
import PerfGate.Proofs.Assessment.Rows
import PerfGate.Proofs.Report.ReadBack

/-!
# Assessment — a run against its own summaries

The summaries of a run, in the form of the artifact, make a baseline document. It can be read if and
only if they are all finite, for JSON writes any other number as `null`. It then records the groups of
the run and no others, and the run is below the floors of a document like that only where the text
of a mean is read as a larger number (`Grouping.compare_document`). Only a tiny mean could be read as
so much larger that a tolerance of `FloorCheck.smallTolerance` does not make up for it.
-/

namespace PerfGate

open Json (Value)

/-! ## The document -/

/-- The member of a document that records a group. Its name is the text of the configuration. -/
def Group.documentMember (group : Group) : String × Value :=
  (group.configuration.toValue.toText, .object group.metricMembers)

/-- The baseline document that records a run. -/
def Grouping.document (g : Grouping) : String :=
  (Value.object (g.groups.map Group.documentMember)).toText

/-! ## Numbers -/

namespace Json

/-- The text of a double is the text of a number if and only if the double is finite. -/
theorem exists_reread_eq_real_iff {x : Binary64} :
    (∃ y, reread x = .real y) ↔ x.isFinite = true := by
  constructor
  · rintro ⟨y, hy⟩
    by_contra hx
    rw [reread_not_finite (Bool.not_eq_true _ ▸ hx)] at hy
    cases hy
  · intro hx
    cases x with
    | nan => cases hx
    | infinite s => cases hx
    | finite s n hn =>
        obtain ⟨m, hm, hreread, -⟩ := exists_reread_finite s hn
        exact ⟨_, hreread⟩

/-- A number is read as one of its sign, as zero only if it is zero, and at most seven shares larger
unless it is tiny. -/
theorem exists_units_of_reread {x y : Binary64} (h : reread x = .real y) :
    ∃ s n hn m hm, x = .finite s n hn ∧ y = .finite s m hm ∧ (n = 0 → m = 0) ∧
      (Binary64.smallestNormal ≤ n → (m : ℚ) ≤ n * (1 + 7 * Binary64.roundoff)) := by
  have hx : x.isFinite = true := exists_reread_eq_real_iff.1 ⟨y, h⟩
  cases x with
  | nan => cases hx
  | infinite s => cases hx
  | finite s n hn =>
      obtain ⟨m, hm, hreread, hle⟩ := exists_reread_finite s hn
      have hy : y = .finite s m hm := Value.real.inj (h.symm.trans hreread)
      refine ⟨s, n, hn, m, hm, rfl, hy, ?_, hle⟩
      rintro rfl
      have hzero : reread (.finite s 0 hn) = .real (.zero s) := reread_zero s
      rw [hzero] at hreread
      cases hreread
      rfl

theorem isFinite_of_reread {x y : Binary64} (h : reread x = .real y) : y.isFinite = true := by
  obtain ⟨s, n, hn, m, hm, -, rfl, -⟩ := exists_units_of_reread h
  rfl

theorem readNumber_reread {x y : Binary64} :
    Baseline.readNumber (reread x) = .ok y ↔ reread x = .real y := by
  by_cases hx : x.isFinite = true
  · obtain ⟨z, hz⟩ := exists_reread_eq_real_iff.2 hx
    rw [hz]
    simp [Baseline.readNumber]
  · rw [reread_not_finite (Bool.not_eq_true _ ▸ hx)]
    simp [Baseline.readNumber]

end Json

/-! ## Summaries -/

namespace Stats

/-- The text of each number of one summary is read as that of another. -/
structure RereadAs (s t : Stats) : Prop where
  mean : Json.reread s.mean = .real t.mean
  median : Json.reread s.median = .real t.median
  stdev : Json.reread s.stdev = .real t.stdev

variable {s t : Stats}

theorem exists_rereadAs_iff : (∃ t, s.RereadAs t) ↔ s.Finite := by
  constructor
  · rintro ⟨t, h⟩
    exact ⟨Json.exists_reread_eq_real_iff.1 ⟨_, h.mean⟩,
      Json.exists_reread_eq_real_iff.1 ⟨_, h.median⟩,
      Json.exists_reread_eq_real_iff.1 ⟨_, h.stdev⟩⟩
  · intro h
    obtain ⟨mean, hmean⟩ := Json.exists_reread_eq_real_iff.2 h.mean
    obtain ⟨median, hmedian⟩ := Json.exists_reread_eq_real_iff.2 h.median
    obtain ⟨stdev, hstdev⟩ := Json.exists_reread_eq_real_iff.2 h.stdev
    exact ⟨⟨mean, median, stdev⟩, hmean, hmedian, hstdev⟩

/-- The three members of a summary are read one after another. -/
theorem readStats_reread : Baseline.readStats s.reread = .ok t ↔ s.RereadAs t := by
  simp only [reread, Baseline.readStats, Baseline.readNumbers, List.mem_cons, true_or, or_true,
    if_true, bind_eq_ok_iff, Json.readNumber_reread]
  constructor
  · rintro ⟨numbers, ⟨mean, hmean, _, ⟨median, hmedian, _, ⟨stdev, hstdev, rest, hrest, h⟩, h'⟩, h''⟩,
      hstats⟩
    cases hrest
    cases h
    cases h'
    cases h''
    cases hstats
    exact ⟨hmean, hmedian, hstdev⟩
  · intro h
    exact ⟨_, ⟨_, h.mean, _, ⟨_, h.median, _, ⟨_, h.stdev, [], rfl, rfl⟩, rfl⟩, rfl⟩, rfl⟩

end Stats

/-! ## Groups -/

namespace Group

/-- The summary of a metric is recorded under the field of the metric, as it is read back. -/
def RowRecordedAs (row : Metric × Stats) (recorded : String × Stats) : Prop :=
  recorded.1 = row.1.field ∧ row.2.RereadAs recorded.2

/-- A group is recorded by its configuration and the summary of each metric in turn. -/
structure RecordedAs (group : Group) (entry : BaselineEntry) : Prop where
  configuration : entry.configuration = group.configuration
  stats : List.Forall₂ RowRecordedAs group.stats entry.stats

/-- The member of a document that records a group, as it is read back. -/
def rereadMember (group : Group) : String × Value :=
  (group.configuration.toValue.toText, .object (group.stats.map fun (m, s) => (m.field, s.reread)))

variable {w : Workload} {group : Group} {entry : BaselineEntry}

theorem readGroup_reread {stats : List (String × Stats)} :
    Baseline.readGroup (.object (group.stats.map fun (m, s) => (m.field, s.reread))) = .ok stats ↔
      List.Forall₂ RowRecordedAs group.stats stats := by
  rw [Baseline.readGroup, mapM_eq_ok_iff, List.forall₂_map_left_iff]
  apply forall₂_congr_left
  rintro ⟨m, s⟩ - ⟨name, t⟩
  show (Baseline.readStats s.reread >>= fun t => pure (m.field, t)) = _ ↔ _
  rw [Baseline.readMember_eq_ok_iff, Stats.readStats_reread, RowRecordedAs, eq_comm]

theorem nodup_fields (w : Workload) : (w.metrics.map Metric.field).Nodup := by
  cases w <;> decide

/-- What is recorded of a group is found under the fields of its metrics. -/
theorem RecordedAs.lookup (h : group.RecordedAs entry) (hstats : group.stats.map Prod.fst = w.metrics)
    {m : Metric} {s : Stats} (hrow : (m, s) ∈ group.stats) :
    ∃ t, entry.stats.lookup m.field = some t ∧ s.RereadAs t := by
  have hfields : entry.stats.map Prod.fst = w.metrics.map Metric.field := by
    rw [← hstats, List.map_map]
    exact (map_eq_map_of_forall₂ (h.stats.imp fun _ _ hrow => hrow.1.symm)).symm
  obtain ⟨⟨name, t⟩, hmem, hname, ht⟩ := exists_mem_of_forall₂ h.stats hrow
  have hnodup : (entry.stats.map Prod.fst).Nodup := by
    rw [hfields]
    exact nodup_fields w
  subst hname
  exact ⟨t, lookup_of_mem hnodup hmem, ht⟩

theorem stats?_of_mem (hstats : group.stats.map Prod.fst = w.metrics) {m : Metric} {s : Stats}
    (hrow : (m, s) ∈ group.stats) : group.stats? m = some s := by
  apply lookup_of_mem _ hrow
  rw [hstats]
  exact List.Nodup.of_map _ (nodup_fields w)

/-- The entry that is read under the name of a group records the group. -/
theorem accepted_rereadMember (hconfiguration : group.configuration.InRange)
    (hstats : group.stats.map Prod.fst = w.metrics) :
    Baseline.Accepted w group.rereadMember entry ↔ group.RecordedAs entry := by
  constructor
  · intro h
    have hkey := Baseline.readKey?_eq_some_iff.2 h.key
    rw [rereadMember, Baseline.readKey?_toText hconfiguration, Option.some.injEq] at hkey
    exact ⟨hkey.symm, readGroup_reread.1 (Baseline.readGroup_eq_ok_iff.2 h.value)⟩
  · intro h
    refine ⟨?_, Baseline.readGroup_eq_ok_iff.1 (readGroup_reread.2 h.stats), ?_⟩
    · rw [h.configuration]
      exact Baseline.readKey?_eq_some_iff.1 (Baseline.readKey?_toText hconfiguration)
    · intro m hm
      rw [← hstats] at hm
      obtain ⟨⟨m, s⟩, hrow, rfl⟩ := List.mem_map.1 hm
      obtain ⟨t, ht, -⟩ := h.lookup hstats hrow
      rw [ht, Option.isSome_some]

/-- A group can be recorded if and only if its summaries are finite. -/
theorem exists_recordedAs_iff :
    (∃ entry, group.RecordedAs entry) ↔ ∀ row ∈ group.stats, row.2.Finite := by
  constructor
  · rintro ⟨entry, h⟩ row hrow
    obtain ⟨recorded, -, -, ht⟩ := exists_mem_of_forall₂ h.stats hrow
    exact Stats.exists_rereadAs_iff.1 ⟨_, ht⟩
  · intro h
    obtain ⟨stats, hstats⟩ : ∃ stats, List.Forall₂ RowRecordedAs group.stats stats := by
      rw [exists_forall₂_iff]
      intro row hrow
      obtain ⟨t, ht⟩ := Stats.exists_rereadAs_iff.2 (h row hrow)
      exact ⟨(row.1.field, t), rfl, ht⟩
    exact ⟨⟨group.configuration, stats⟩, rfl, hstats⟩

end Group

/-! ## The document of a run -/

namespace Grouping

variable {w : Workload} {rs : List Record} {g : Grouping}

theorem parseObject?_document (h : ofRecords w rs = .ok g) :
    Json.parseObject? g.document.toList = some (g.groups.map Group.rereadMember) := by
  refine Baseline.parseObject?_names (inRange_configuration h)
    (ofRecords_summarizes h).nodup_configuration fun group hgroup =>
      Json.rereads_object ?_ (group.rereads_metricMembers 124)
  have hfields : (group.stats.map fun (m, s) => (m.field, s.reread)).map Prod.fst =
      g.workload.metrics.map Metric.field := by
    rw [← map_metric h group hgroup, List.map_map, List.map_map]
    rfl
  rw [hfields]
  exact Group.nodup_fields _

/-- What is read from the document of a run records its groups, one after another. -/
theorem parse_document_iff (h : ofRecords w rs = .ok g) {path : String} {b : Baseline} :
    Baseline.parse w path g.document = .ok b ↔
      List.Forall₂ Group.RecordedAs g.groups b.entries := by
  rw [Baseline.parse_eq_ok_iff, parseObject?_document h]
  simp only [Option.some.injEq, exists_eq_left', List.forall₂_map_left_iff]
  apply forall₂_congr_left
  intro group hgroup entry
  have hmetrics := map_metric h group hgroup
  rw [(ofRecords_summarizes h).workload] at hmetrics
  exact Group.accepted_rereadMember (inRange_configuration h group hgroup) hmetrics

/-- The document of a run is accepted if and only if all summaries are finite. -/
theorem exists_parse_document_iff (h : ofRecords w rs = .ok g) {path : String} :
    (∃ b, Baseline.parse w path g.document = .ok b) ↔
      ∀ group ∈ g.groups, ∀ row ∈ group.stats, row.2.Finite := by
  simp only [parse_document_iff h, ← Group.exists_recordedAs_iff, ← exists_forall₂_iff]
  exact ⟨fun ⟨b, hb⟩ => ⟨b.entries, hb⟩, fun ⟨entries, hentries⟩ => ⟨⟨entries⟩, hentries⟩⟩

end Grouping

/-! ## Drops below the own summaries -/

/-- The drop of a mean below the floor of what its own text is read as. -/
def Group.rereadDrop? (p : Policy) (group : Group) (row : Metric × Stats) : Option Finding :=
  match Json.reread row.2.mean with
  | .real recorded =>
    let tolerance := p.tolerance row.1.tolerance
    let floor := FloorCheck.floorOf recorded tolerance
    if .zero false < recorded ∧ ¬ floor ≤ row.2.mean then
      some (.drop row.1 group.configuration row.2.mean recorded floor tolerance)
    else none
  | _ => none

/-- The drops of a run below what its own means are read as. -/
def Grouping.rereadDrops (g : Grouping) (p : Policy) : List Finding :=
  g.groups.flatMap fun group => group.stats.filterMap (group.rereadDrop? p)

namespace Grouping

variable {w : Workload} {rs : List Record} {g : Grouping} {group : Group} {p : Policy}

theorem drop?_of_recordedAs {entry : BaselineEntry} (h : group.RecordedAs entry)
    (hstats : group.stats.map Prod.fst = w.metrics) {row : Metric × Stats}
    (hrow : row ∈ group.stats) : drop? p group entry row.1 = group.rereadDrop? p row := by
  obtain ⟨m, s⟩ := row
  obtain ⟨t, hlookup, ht⟩ := h.lookup hstats hrow
  have hfinite : t.mean.isFinite := Json.isFinite_of_reread ht.mean
  rw [drop?_eq (Group.stats?_of_mem hstats hrow) hlookup hfinite, Group.rereadDrop?, h.configuration]
  simp only [ht.mean]

theorem compareEntry_of_recordedAs (h : ofRecords w rs = .ok g) (hgroup : group ∈ g.groups)
    {entry : BaselineEntry} (hentry : group.RecordedAs entry) :
    g.compareEntry p entry = group.stats.filterMap (group.rereadDrop? p) := by
  have hget : g.get? entry.configuration = some group :=
    (ofRecords_summarizes h).get?_eq_some_iff.2 ⟨hgroup, hentry.configuration.symm⟩
  have hstats := map_metric h group hgroup
  unfold compareEntry
  rw [hget]
  show g.workload.metrics.filterMap (drop? p group entry) = _
  rw [← hstats, List.filterMap_map]
  exact List.filterMap_congr fun row hrow => drop?_of_recordedAs hentry hstats hrow

/-- A run that is held against its own document finds what its own means call for, and no group is
missing. -/
theorem compare_of_recordedAs (h : ofRecords w rs = .ok g) {b : Baseline}
    (hb : List.Forall₂ Group.RecordedAs g.groups b.entries) :
    g.compare p b = g.rereadDrops p := by
  unfold compare rereadDrops
  rw [List.flatMap_def, List.flatMap_def]
  congr 1
  refine (map_eq_map_of_forall₂ ?_).symm
  exact ((List.forall₂_and_left (p := (· ∈ g.groups)) _ _).2 ⟨fun _ hgroup => hgroup, hb⟩).imp
    fun _ _ hentry => (compareEntry_of_recordedAs h hentry.1 hentry.2).symm

end Grouping

/-! ## Tolerances that make up for reading -/

namespace FloorCheck

open Binary64

variable {x y tolerance : Binary64}

/-- A mean is not below the floor of what its text is read as if the tolerance takes off what reading
adds. -/
theorem floorOf_reread_le {share : Nat} (hreread : Json.reread x = .real y)
    (hpositive : .zero false < y) (htolerance : TakesOff share tolerance)
    (h : ∀ n hn m hm, x = .finite false n hn → y = .finite false m hm → 0 < m →
      m * (perOne - share) ≤ n * perOne) : floorOf y tolerance ≤ x := by
  obtain ⟨s, n, hn, m, hm, rfl, rfl, -, -⟩ := Json.exists_units_of_reread hreread
  obtain ⟨rfl, hpos⟩ := zero_lt_finite_iff.1 hpositive
  exact floorOf_le hm hn htolerance (h n hn m hm rfl rfl hpos)

/-- A valid tolerance, zero included, makes up for a text that is read as no larger number. -/
theorem floorOf_reread_le_of_le (hreread : Json.reread x = .real y) (hpositive : .zero false < y)
    (hvalid : Policy.isPercentage tolerance = true) (hle : y ≤ x) : floorOf y tolerance ≤ x := by
  refine floorOf_reread_le hreread hpositive (takesOff_zero hvalid) ?_
  rintro n hn m hm rfl rfl -
  rw [Nat.sub_zero]
  exact Nat.mul_le_mul_right perOne (finite_false_le_iff.1 hle)

/-- A small tolerance makes up for reading, but for tiny means. -/
theorem floorOf_reread_le_of_small (hreread : Json.reread x = .real y)
    (hpositive : .zero false < y) (hvalid : Policy.isPercentage tolerance = true)
    (hsmall : smallTolerance ≤ tolerance)
    (hnormal : .zero false < x → .finite false smallestNormal representable_smallestNormal ≤ x) :
    floorOf y tolerance ≤ x := by
  refine floorOf_reread_le hreread hpositive (takesOff_scanError hvalid hsmall) ?_
  rintro n hn m hm rfl rfl hm0
  obtain ⟨s, n', hn', m', hm', hx, hy, hzero, hle⟩ := Json.exists_units_of_reread hreread
  cases hx
  cases hy
  have hn0 : 0 < n := by
    by_contra hn0
    have := hzero (by omega)
    omega
  have hunits : smallestNormal ≤ n :=
    finite_false_le_iff.1 (hnormal (zero_lt_finite_iff.2 ⟨rfl, hn0⟩))
  have hcast : ((m * (perOne - scanError) : Nat) : ℚ) ≤ (n * perOne : Nat) := by
    rw [Nat.cast_mul, Nat.cast_mul, cast_perOne_sub_scanError]
    have hone : (0 : ℚ) ≤ perOne := Nat.cast_nonneg _
    have hfactor : (0 : ℚ) ≤ 1 - 7 * roundoff := by norm_num [roundoff]
    have hproduct : (1 + 7 * roundoff) * (1 - 7 * roundoff) ≤ 1 := by norm_num [roundoff]
    have hle := hle hunits
    generalize (perOne : ℚ) = one at hone ⊢
    calc (m : ℚ) * (one * (1 - 7 * roundoff))
        ≤ n * (1 + 7 * roundoff) * (one * (1 - 7 * roundoff)) :=
          mul_le_mul_of_nonneg_right hle (mul_nonneg hone hfactor)
      _ = n * one * ((1 + 7 * roundoff) * (1 - 7 * roundoff)) := by ring
      _ ≤ n * one * 1 := mul_le_mul_of_nonneg_left hproduct (mul_nonneg (Nat.cast_nonneg n) hone)
      _ = n * one := mul_one _
  exact Nat.cast_le.1 hcast

end FloorCheck

namespace Grouping

variable {w : Workload} {rs : List Record} {g : Grouping} {p : Policy}

theorem rereadDrops_eq_nil (h : ∀ group ∈ g.groups, ∀ row ∈ group.stats, ∀ y,
    Json.reread row.2.mean = .real y → .zero false < y →
      FloorCheck.floorOf y (p.tolerance row.1.tolerance) ≤ row.2.mean) : g.rereadDrops p = [] := by
  unfold rereadDrops
  rw [List.flatMap_eq_nil_iff]
  intro group hgroup
  rw [List.filterMap_eq_nil_iff]
  intro row hrow
  unfold Group.rereadDrop?
  split
  · rename_i y hy
    exact if_neg fun hdrop => hdrop.2 (h group hgroup row hrow y hy hdrop.1)
  · rfl

/-- The document of a run can be read if and only if all summaries are finite. It then records the
groups of the run in their order, and the run drops below it only where the text of a mean is read as
a larger number whose floor is above the mean. There is no such mean under any valid tolerances, zero
included, if no text is read as a larger number; and none under tolerances that are not tiny if no
mean is. -/
theorem compare_document (h : ofRecords w rs = .ok g) (path : String) :
    ((∃ b, Baseline.parse w path g.document = .ok b) ↔
      ∀ group ∈ g.groups, ∀ row ∈ group.stats, row.2.Finite) ∧
    ∀ b, Baseline.parse w path g.document = .ok b →
      b.entries.map (·.configuration) = g.groups.map (·.configuration) ∧
      ∀ p : Policy, p.fault? = none →
        g.compare p b = g.rereadDrops p ∧
        ((∀ group ∈ g.groups, ∀ row ∈ group.stats, ∀ y,
            Json.reread row.2.mean = .real y → y ≤ row.2.mean) → g.compare p b = []) ∧
        (FloorCheck.smallTolerance ≤ p.throughputTolerance →
          FloorCheck.smallTolerance ≤ p.bandwidthTolerance →
          (∀ group ∈ g.groups, ∀ row ∈ group.stats, .zero false < row.2.mean →
            .finite false Binary64.smallestNormal Binary64.representable_smallestNormal ≤
              row.2.mean) → g.compare p b = []) := by
  refine ⟨exists_parse_document_iff h, fun b hb => ?_⟩
  rw [parse_document_iff h] at hb
  have hconfigurations : b.entries.map (·.configuration) = g.groups.map (·.configuration) :=
    (map_eq_map_of_forall₂ (hb.imp fun _ _ hentry => hentry.configuration.symm)).symm
  refine ⟨hconfigurations, fun p hp => ?_⟩
  have hvalid := Policy.isPercentage_tolerance hp
  rw [compare_of_recordedAs h hb]
  refine ⟨rfl, fun hle => ?_, fun hthroughput hbandwidth hnormal => ?_⟩
  · apply rereadDrops_eq_nil
    intro group hgroup row hrow y hy hpositive
    exact FloorCheck.floorOf_reread_le_of_le hy hpositive (hvalid _) (hle group hgroup row hrow y hy)
  · have hsmall : ∀ kind, FloorCheck.smallTolerance ≤ p.tolerance kind := by
      intro kind
      cases kind with
      | throughput => exact hthroughput
      | bandwidth => exact hbandwidth
    apply rereadDrops_eq_nil
    intro group hgroup row hrow y hy hpositive
    exact FloorCheck.floorOf_reread_le_of_small hy hpositive (hvalid _) (hsmall _)
      (hnormal group hgroup row hrow)

/-- One trial of each of two configurations. -/
def singleTrials : List Record :=
  [.spelling .am 1 ⟨"a", 256, 16, 10⟩ [80, 2], .spelling .am 2 ⟨"b", 256, 16, 10⟩ [70, 0]]

/-- No mean may drop. -/
def exactPolicy : Policy :=
  { Policy.standard with throughputTolerance := .zero false, bandwidthTolerance := .zero false }

theorem compare_document_singleTrials : ∃ g b, ofRecords .am singleTrials = .ok g ∧
    Baseline.parse .am "am_bench.json" g.document = .ok b ∧
    b.entries.map (·.configuration) = [⟨"a", 256, 16, 10⟩, ⟨"b", 256, 16, 10⟩] ∧
    g.compare exactPolicy b = [] ∧ g.compare .standard b = [] := by
  have hgroups : ∀ group ∈
      (Rows.configurations .am singleTrials).map (Rows.group .am singleTrials),
      ∀ row ∈ group.stats, row.2.Finite ∧
        (Baseline.readNumber (Json.reread row.2.mean)).toOption.all (· ≤ row.2.mean) ∧
        (.zero false < row.2.mean →
          .finite false Binary64.smallestNormal Binary64.representable_smallestNormal ≤
            row.2.mean) := by
    decide +kernel
  have hpolicies : exactPolicy.fault?.isNone ∧ Policy.standard.fault?.isNone ∧
      FloorCheck.smallTolerance ≤ Policy.standard.throughputTolerance := by
    decide +kernel
  obtain ⟨g, hg⟩ := exists_ofRecords_iff.2 (by decide : ∀ r ∈ singleTrials, r.IsTrial .am)
  have hsummary := ofRecords_summarizes hg
  rw [← hsummary.groups] at hgroups
  obtain ⟨hparse, hcompare⟩ := compare_document hg "am_bench.json"
  obtain ⟨b, hb⟩ := hparse.2 fun group hgroup row hrow => (hgroups group hgroup row hrow).1
  obtain ⟨hkeys, hcompare⟩ := hcompare b hb
  refine ⟨g, b, hg, hb, ?_, ?_, ?_⟩
  · rw [hkeys, hsummary.map_configuration]
    decide
  · apply (hcompare exactPolicy (Option.isNone_iff_eq_none.1 hpolicies.1)).2.1
    intro group hgroup row hrow y hy
    obtain ⟨-, hle, -⟩ := hgroups group hgroup row hrow
    rw [hy] at hle
    exact of_decide_eq_true hle
  · exact (hcompare .standard (Option.isNone_iff_eq_none.1 hpolicies.2.1)).2.2 hpolicies.2.2
      hpolicies.2.2 fun group hgroup row hrow => (hgroups group hgroup row hrow).2.2

/-- The groups of the rows that a log has for a workload. -/
def ofLog (w : Workload) (log : List Char) : Except Error Grouping := do
  let records ← Log.parse "perf.ndjson" (String.ofList log)
  let rows ← w.select records
  ofRecords w rows

theorem ofLog_eq (w : Workload) (log : List Char) :
    ofLog w log = (do
      let records ← Log.readLines "perf.ndjson" 1 (log.splitOn '\n')
      let rows ← w.select records
      ofRecords w rows) := by
  rw [ofLog, Log.parse, Log.lines, String.toList_ofList]

/-- A line of a log: one trial of a throughput. -/
def trialLine (throughput : String) : List Char :=
  "\x7b\"name\":\"a\",\"dim_bits\":256,\"capacity\":16,\"size\":10,".toList ++
    "\"iters\":1,\"secs\":1,\"queries_per_sec\":".toList ++ throughput.toList ++
    ",\"eff_gb_per_sec\":2,\"sample_index\":0,\"warmup_ms\":0,\"measure_ms\":1\x7d\n".toList

/-- Two throughputs whose sum is too large to be finite have no mean in their document, which is then
no baseline. A throughput whose text is read as the next larger double is below its own mean if no
drop is tolerated. -/
theorem document_not_passed :
    (∃ g, ofLog .am (trialLine "1.7e308" ++ trialLine "1.7e308") = .ok g ∧
      ∀ b, Baseline.parse .am "am_bench.json" g.document ≠ .ok b) ∧
    ∃ g b, ofLog .am (trialLine "\"900.7199254740995\"") = .ok g ∧
      Baseline.parse .am "am_bench.json" g.document = .ok b ∧ exactPolicy.fault? = none ∧
      g.compare exactPolicy b ≠ [] := by
  have hlogs :
      ((ofLog .am (trialLine "1.7e308" ++ trialLine "1.7e308")).toOption.map fun g =>
        decide (∀ group ∈ g.groups, ∀ row ∈ group.stats, row.2.Finite)) = some false ∧
      ((ofLog .am (trialLine "\"900.7199254740995\"")).toOption.map fun g =>
        decide (∀ group ∈ g.groups, ∀ row ∈ group.stats, row.2.Finite) &&
          !(g.rereadDrops exactPolicy).isEmpty) = some true ∧
      exactPolicy.fault?.isNone := by
    rw [ofLog_eq, ofLog_eq]
    decide +kernel
  obtain ⟨hhuge, hdrift, hpolicy⟩ := hlogs
  constructor
  · obtain ⟨g, hg, hinfinite⟩ := Option.map_eq_some_iff.1 hhuge
    rw [toOption_eq_some_iff] at hg
    refine ⟨g, hg, fun b hb => of_decide_eq_false hinfinite ?_⟩
    obtain ⟨records, -, hg⟩ := bind_eq_ok_iff.1 hg
    obtain ⟨rows, -, hg⟩ := bind_eq_ok_iff.1 hg
    exact (exists_parse_document_iff hg).1 ⟨b, hb⟩
  · obtain ⟨g, hg, hdrops⟩ := Option.map_eq_some_iff.1 hdrift
    rw [toOption_eq_some_iff] at hg
    rw [Bool.and_eq_true, decide_eq_true_eq, Bool.not_eq_true'] at hdrops
    have hgroups := hg
    obtain ⟨records, -, hgroups⟩ := bind_eq_ok_iff.1 hgroups
    obtain ⟨rows, -, hgroups⟩ := bind_eq_ok_iff.1 hgroups
    obtain ⟨b, hb⟩ := (exists_parse_document_iff hgroups).2 hdrops.1
    refine ⟨g, b, hg, hb, Option.isNone_iff_eq_none.1 hpolicy, fun hnone => ?_⟩
    rw [compare_of_recordedAs hgroups ((parse_document_iff hgroups).1 hb)] at hnone
    rw [hnone] at hdrops
    cases hdrops.2

end Grouping

end PerfGate
