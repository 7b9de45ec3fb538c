import PerfGate.Proofs.Grouping.Refinement
import PerfGate.Proofs.Rows.Finite

/-!
# Grouping — groups are made of numbers

No NaN finds its way into a group. The columns of the series are the values of the rows, which are
finite (`columns_isFinite`), and the summaries of finite values are numbers (`ofRecords_defined`),
if an infinite one where the values are too large to be added.
-/

namespace PerfGate

namespace SeriesTable

/-- Whatever has been added to a series is finite. -/
theorem columns_isFinite {w : Workload} {rs : List Record} {ts : List Trial}
    (hts : rs.mapM (Trial.ofRecord w) = .ok ts) (hrs : ∀ r ∈ rs, r.Finite) :
    ∀ s ∈ (ofTrials w ts).series, ∀ column ∈ s.columns, ∀ x ∈ column, x.isFinite := by
  rw [(describes_ofTrials w ts).series, List.forall_mem_map]
  intro c _
  rw [Series.collect_eq (mapM_eq_ok_iff.1 hts), List.forall_mem_map]
  intro m _
  exact Rows.values_isFinite hrs c m

end SeriesTable

namespace Grouping

/-- Groups hold no NaN. Whenever records of finite numbers can be grouped, and there are not more of
them than 64 bits can count, every value that is added to a series is finite, and each metric of
each group has a mean, a median and a deviation that are numbers, the deviation not a negative one.
-/
theorem ofRecords_defined {w : Workload} {rs : List Record} {g : Grouping}
    (h : ofRecords w rs = .ok g) (hrs : ∀ r ∈ rs, r.Finite) (hlen : rs.length < UInt64.size) :
    (∃ ts, rs.mapM (Trial.ofRecord w) = .ok ts ∧
      ∀ s ∈ (SeriesTable.ofTrials w ts).series, ∀ column ∈ s.columns, ∀ x ∈ column, x.isFinite) ∧
    ∀ group ∈ g.groups, ∀ m ∈ w.metrics, ∃ s, group.stats? m = some s ∧
      s.mean ≠ .nan ∧ s.median ≠ .nan ∧ s.stdev ≠ .nan ∧ .zero false ≤ s.stdev := by
  constructor
  · obtain ⟨ts, hts, -⟩ := map_eq_ok_iff.1 h
    exact ⟨ts, hts, SeriesTable.columns_isFinite hts hrs⟩
  · rw [(ofRecords_summarizes h).groups, List.forall_mem_map]
    intro c _ m hm
    have hdefined := Rows.stats_defined (w := w) hrs hlen c m
    exact ⟨_, List.lookup_graph _ hm, hdefined.mean, hdefined.median, hdefined.stdev,
      hdefined.stdev_nonneg⟩

/-- A log of two trials with throughputs that are too large to be added, one of them as a text. -/
def hugeLog : String :=
  let line (throughput : String) : String :=
    "\x7b\"name\":\"a\",\"dim_bits\":8,\"capacity\":4,\"size\":2,\"queries_per_sec\":" ++
      throughput ++ ",\"eff_gb_per_sec\":1\x7d\n"
  line "1e308" ++ line "\" 1e308\""

/-- The throughput has an infinite mean, and a deviation that is a number. -/
theorem hugeLog_defined : ∃ rs g,
    Log.parse "bench.log" hugeLog = .ok rs ∧ ofRecords .am rs = .ok g ∧
    g.groups.map (fun group => (group.stats.map (·.2.mean)).head?) = [some (.infinite false)] ∧
    ∀ group ∈ g.groups, ∃ s, group.stats? .queries = some s ∧ s.stdev ≠ .nan := by
  have hread : ((Log.parse "bench.log" hugeLog).toOption.bind fun rs =>
      (ofRecords .am rs).toOption.map fun g =>
        (rs.length, g.groups.map fun group => (group.stats.map (·.2.mean)).head?)) =
      some (2, [some (.infinite false)]) := by
    decide +kernel
  simp only [Option.bind_eq_some_iff, Option.map_eq_some_iff, toOption_eq_some_iff,
    Prod.mk.injEq] at hread
  obtain ⟨rs, hrs, g, hg, hlength, hmean⟩ := hread
  obtain ⟨-, hdefined⟩ := ofRecords_defined hg (Log.parse_finite hrs) (by rw [hlength]; decide)
  refine ⟨rs, g, hrs, hg, hmean, ?_⟩
  intro group hgroup
  obtain ⟨s, hs, -, -, hstdev, -⟩ := hdefined group hgroup .queries (by decide)
  exact ⟨s, hs, hstdev⟩

end Grouping

end PerfGate
