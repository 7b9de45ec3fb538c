import Mathlib.Data.List.Basic
import PerfGate.Assessment
import PerfGate.Proofs.Baseline.Complete
import PerfGate.Proofs.Binary64.Order
import PerfGate.Proofs.Grouping.Refinement

/-!
# Assessment — findings from the rows

What the gate finds, said without groups and without an index: `Rows.findings` goes through the
entries of the baselines and the configurations of the rows, and takes each mean straight from the
rows of a configuration. No tolerance is mistaken for another there
(`Rows.tolerance_of_mem_findings`). The judgement of a run finds exactly that.
-/

namespace PerfGate

/-- The recorded mean of a metric. An entry of a document that was accepted has one. -/
def BaselineEntry.mean (entry : BaselineEntry) (m : Metric) : Binary64 :=
  ((entry.stats.lookup m.field).map (·.mean)).getD (.zero false)

/-- The tolerance of each metric, by name: the three rates of events share one, and only the memory
bandwidth is under the other. -/
theorem Policy.tolerance_metric (p : Policy) (m : Metric) : p.tolerance m.tolerance =
    match m with
    | .queries | .updates | .finalizes => p.throughputTolerance
    | .bandwidth => p.bandwidthTolerance := by
  cases m with
  | queries => rfl
  | bandwidth => rfl
  | updates => rfl
  | finalizes => rfl

/-- A recorded mean that is not above zero gives no floor, and nothing is below it. -/
theorem Grouping.drop?_eq {p : Policy} {group : Group} {entry : BaselineEntry} {m : Metric}
    {current recorded : Stats} (hcurrent : group.stats? m = some current)
    (hrecorded : entry.stats.lookup m.field = some recorded) (hfinite : recorded.mean.isFinite) :
    drop? p group entry m =
      let tolerance := p.tolerance m.tolerance
      let floor := FloorCheck.floorOf recorded.mean tolerance
      if .zero false < recorded.mean ∧ ¬ floor ≤ current.mean then
        some (.drop m entry.configuration current.mean recorded.mean floor tolerance)
      else none := by
  have hpositive : ¬ recorded.mean ≤ .zero false ↔ .zero false < recorded.mean :=
    Binary64.not_le_iff_lt hfinite rfl
  unfold drop?
  rw [hcurrent, hrecorded]
  simp only [FloorCheck.make, ← hpositive]
  -- both sides ask for a positive recorded mean first, and then for the floor
  by_cases hle : recorded.mean ≤ .zero false
  · simp only [hle, if_true, not_true_eq_false, false_and, if_false]
  · simp only [hle, if_false, not_false_eq_true, true_and]
    by_cases hfloor :
        FloorCheck.floorOf recorded.mean (p.tolerance m.tolerance) ≤ current.mean
    · rw [decide_eq_true hfloor]
      exact (if_neg (not_not.2 hfloor)).symm
    · rw [decide_eq_false hfloor]
      exact (if_pos hfloor).symm

namespace Rows

/-! ## Findings of rows -/

/-- The mean of a metric on the rows of a configuration. -/
def mean (w : Workload) (rs : List Record) (c : Configuration) (m : Metric) : Binary64 :=
  Stats.meanOf (values w rs c m)

/-- The deviation of a metric on the rows of a configuration. -/
def stdev (w : Workload) (rs : List Record) (c : Configuration) (m : Metric) : Binary64 :=
  Stats.stdevOf (values w rs c m)

/-- The mean of a metric has dropped if a positive one was recorded and the mean is not at least
the recorded one less its tolerance. -/
def drop? (w : Workload) (rs : List Record) (p : Policy) (entry : BaselineEntry) (m : Metric) :
    Option Finding :=
  let current := mean w rs entry.configuration m
  let recorded := entry.mean m
  let tolerance := p.tolerance m.tolerance
  let floor := recorded * (.ofNat 1 - tolerance / .ofNat 100)
  if .zero false < recorded ∧ ¬ floor ≤ current then
    some (.drop m entry.configuration current recorded floor tolerance)
  else none

/-- A recorded configuration without rows is missing. In one with rows each metric can have
dropped. -/
def compareEntry (w : Workload) (rs : List Record) (p : Policy) (entry : BaselineEntry) :
    List Finding :=
  if ofConfiguration w rs entry.configuration = [] then [.missing w entry.configuration]
  else w.metrics.filterMap (drop? w rs p entry)

/-- The trials of a metric disagree if their mean is positive and the ratio of deviation to mean is
above the limit. -/
def noise? (w : Workload) (rs : List Record) (p : Policy) (c : Configuration) (m : Metric) :
    Option Finding :=
  let variation := stdev w rs c m / mean w rs c m
  if .zero false < mean w rs c m ∧ p.noiseLimit < variation then
    some (.noise m c variation p.noiseLimit)
  else none

/-- The noise of the configurations that have enough rows. -/
def noise (w : Workload) (rs : List Record) (p : Policy) : List Finding :=
  ((configurations w rs).filter fun c => p.minTrials ≤ (ofConfiguration w rs c).length).flatMap
    fun c => w.metrics.filterMap (noise? w rs p c)

/-- All findings: the drops of both workloads in the order of their documents, then the noise of
both in the order in which the rows mention the configurations. -/
def findings (am cluster : List Record) (b : Baselines) (p : Policy) : List Finding :=
  b.am.entries.flatMap (compareEntry .am am p) ++
    b.cluster.entries.flatMap (compareEntry .cluster cluster p) ++
    noise .am am p ++ noise .cluster cluster p

/-! ### Tolerances -/

section Tolerances

variable {p : Policy} {m : Metric} {c : Configuration}
  {current recorded floor tolerance : Binary64}

/-- A drop on the rows of an entry is held against the tolerance of its metric. -/
theorem tolerance_of_mem_compareEntry {w : Workload} {rs : List Record} {entry : BaselineEntry}
    (h : .drop m c current recorded floor tolerance ∈ compareEntry w rs p entry) :
    tolerance = p.tolerance m.tolerance ∧
      floor = recorded * (.ofNat 1 - tolerance / .ofNat 100) := by
  unfold compareEntry at h
  split at h
  · cases List.mem_singleton.1 h
  · obtain ⟨n, -, hdrop⟩ := List.mem_filterMap.1 h
    simp only [drop?, Option.ite_none_right_eq_some, Option.some.injEq] at hdrop
    cases hdrop.2
    exact ⟨rfl, rfl⟩

theorem drop_notMem_noise {w : Workload} {rs : List Record} :
    .drop m c current recorded floor tolerance ∉ noise w rs p := by
  intro h
  obtain ⟨d, -, hnoise⟩ := List.mem_flatMap.1 h
  obtain ⟨n, -, hfound⟩ := List.mem_filterMap.1 hnoise
  simp only [noise?, Option.ite_none_right_eq_some] at hfound
  cases hfound.2

/-- **No tolerance is mistaken for another.** Among all findings, each drop of queries, updates or
finalizes is held against the tolerance of throughputs, and each drop of the memory bandwidth against
that of bandwidths, with the floor that belongs to it. -/
theorem tolerance_of_mem_findings {am cluster : List Record} {b : Baselines} :
    .drop m c current recorded floor tolerance ∈ findings am cluster b p →
      tolerance = (match m with
        | .queries | .updates | .finalizes => p.throughputTolerance
        | .bandwidth => p.bandwidthTolerance) ∧
      floor = recorded * (.ofNat 1 - tolerance / .ofNat 100) := by
  intro h
  rw [← p.tolerance_metric m]
  simp only [findings, List.mem_append, drop_notMem_noise, or_false] at h
  rcases h with ham | hcluster
  · obtain ⟨entry, -, hdrop⟩ := List.mem_flatMap.1 ham
    exact tolerance_of_mem_compareEntry hdrop
  · obtain ⟨entry, -, hdrop⟩ := List.mem_flatMap.1 hcluster
    exact tolerance_of_mem_compareEntry hdrop

end Tolerances

/-! ## The group of a configuration says what its rows say -/

variable {w : Workload} {rs : List Record} {c : Configuration} {m : Metric}

theorem stats?_group (hm : m ∈ w.metrics) :
    (group w rs c).stats? m = some (Stats.ofList (values w rs c m)) := by
  unfold Group.stats? group
  rw [List.lookup_graph _ hm]

theorem noise?_group (p : Policy) (hm : m ∈ w.metrics) :
    (group w rs c).noise? p m = noise? w rs p c m := by
  unfold Group.noise? noise?
  rw [stats?_group hm]
  show ((if .zero false < mean w rs c m then some (stdev w rs c m / mean w rs c m) else none).bind
    fun variation => if p.noiseLimit < variation then
      some (Finding.noise m c variation p.noiseLimit) else none) = _
  by_cases hmean : .zero false < mean w rs c m
  · simp only [hmean, if_true, Option.bind_some, true_and]
  · simp only [hmean, if_false, Option.bind_none, false_and]

theorem noise_group (p : Policy) :
    (group w rs c).noise p w.metrics = if (ofConfiguration w rs c).length < p.minTrials then []
      else w.metrics.filterMap (noise? w rs p c) := by
  rw [← List.filterMap_congr fun m hm => noise?_group p hm]
  rfl

theorem drop?_group (p : Policy) {entry : BaselineEntry} (hentry : entry.Complete w)
    (hm : m ∈ w.metrics) :
    Grouping.drop? p (group w rs entry.configuration) entry m = drop? w rs p entry m := by
  obtain ⟨recorded, hrecorded⟩ := Option.isSome_iff_exists.1 (hentry.recorded m hm)
  have hmean : entry.mean m = recorded.mean := by
    rw [BaselineEntry.mean, hrecorded]
    rfl
  rw [Grouping.drop?_eq (stats?_group hm) hrecorded (hentry.finite _ (lookup_mem hrecorded)).mean,
    drop?, hmean]
  rfl

/-! ## The judgement says what the rows say -/

variable {g : Grouping}

theorem compareEntry_eq (hg : g.Summarizes w rs) (p : Policy) {entry : BaselineEntry}
    (hentry : entry.Complete w) : g.compareEntry p entry = compareEntry w rs p entry := by
  unfold Grouping.compareEntry compareEntry
  rw [hg.get?_eq, hg.workload]
  by_cases hrows : ofConfiguration w rs entry.configuration = []
  · rw [if_pos hrows, if_pos hrows]
  · rw [if_neg hrows, if_neg hrows]
    exact List.filterMap_congr fun m hm => drop?_group p hentry hm

theorem compare_eq (hg : g.Summarizes w rs) (p : Policy) {b : Baseline}
    (hb : ∀ entry ∈ b.entries, entry.Complete w) :
    g.compare p b = b.entries.flatMap (compareEntry w rs p) :=
  List.flatMap_congr fun entry hentry => compareEntry_eq hg p (hb entry hentry)

theorem noise_eq (hg : g.Summarizes w rs) (p : Policy) : g.noise p = noise w rs p := by
  unfold Grouping.noise noise
  rw [hg.workload, hg.groups, List.flatMap_map]
  -- exempting a group of few rows is passing over its configuration
  induction configurations w rs with
  | nil => rfl
  | cons c rest ih =>
      rw [List.flatMap_cons, ih, noise_group, List.filter_cons]
      by_cases hfew : (ofConfiguration w rs c).length < p.minTrials
      · rw [if_pos hfew, if_neg (by simpa using hfew), List.nil_append]
      · rw [if_neg hfew, if_pos (by simpa using hfew), List.flatMap_cons]

end Rows

namespace Assessment

/-- **The judgement is that of the rows.** Whenever the rows of both workloads are trials, both
documents are accepted and the policy makes sense, a run is judged; every metric of every entry has
a recorded mean; and the findings are those that the rows, the entries and the policy call for. -/
theorem make_eq_findings {am cluster : List Record} {first second : Grouping}
    {amPath amText clusterPath clusterText : String} {b : Baselines} {p : Policy}
    (hfirst : Grouping.ofRecords .am am = .ok first)
    (hsecond : Grouping.ofRecords .cluster cluster = .ok second)
    (ham : Baseline.parse .am amPath amText = .ok b.am)
    (hcluster : Baseline.parse .cluster clusterPath clusterText = .ok b.cluster)
    (hp : p.fault? = none) :
    (∀ (w : Workload), ∀ entry ∈ (b.of w).entries, ∀ m ∈ w.metrics, ∃ s,
      entry.stats.lookup m.field = some s ∧ entry.mean m = s.mean) ∧
    ∃ a, make first second b p = .ok a ∧ a.findings = Rows.findings am cluster b p := by
  have hfirst := Grouping.ofRecords_summarizes hfirst
  have hsecond := Grouping.ofRecords_summarizes hsecond
  have ham := Baseline.parse_complete ham
  have hcluster := Baseline.parse_complete hcluster
  constructor
  · intro w entry hentry m hm
    have hcomplete : entry.Complete w := by
      cases w with
      | am => exact ham entry hentry
      | cluster => exact hcluster entry hentry
    obtain ⟨s, hs⟩ := Option.isSome_iff_exists.1 (hcomplete.recorded m hm)
    refine ⟨s, hs, ?_⟩
    rw [BaselineEntry.mean, hs]
    rfl
  · unfold make
    rw [hp, hfirst.workload, hsecond.workload]
    refine ⟨_, rfl, ?_⟩
    show first.compare p b.am ++ second.compare p b.cluster ++ first.noise p ++ second.noise p = _
    rw [Rows.compare_eq hfirst p ham, Rows.compare_eq hsecond p hcluster, Rows.noise_eq hfirst p,
      Rows.noise_eq hsecond p]
    rfl

/-- A document that records one configuration that was run and one that was not. -/
def recordedTwo : String :=
  let entry (name : String) : String :=
    "\"[\\\"" ++ name ++ "\\\", 256, 16, 10]\": \x7b\"queries_per_sec\": \x7b\"mean\": 100\x7d, " ++
      "\"eff_gb_per_sec\": [2]\x7d"
  "\x7b" ++ entry "a" ++ ", " ++ entry "b" ++ "\x7d"

/-- A run of the first configuration that is twenty percent below the recorded mean. -/
def slowRun : List Record := [.spelling .am 1 ⟨"a", 256, 16, 10⟩ [80, 2]]

theorem slowRun_findings : ∃ first second b a,
    Grouping.ofRecords .am slowRun = .ok first ∧ Grouping.ofRecords .cluster [] = .ok second ∧
    Baseline.parse .am "am.json" recordedTwo = .ok b.am ∧
    Baseline.parse .cluster "cluster.json" "\x7b\x7d" = .ok b.cluster ∧
    make first second b .standard = .ok a ∧
    a.findings.map (·.configuration) = [⟨"a", 256, 16, 10⟩, ⟨"b", 256, 16, 10⟩] := by
  obtain ⟨first, hfirst⟩ :=
    Grouping.exists_ofRecords_iff.2 (by decide : ∀ r ∈ slowRun, r.IsTrial .am)
  obtain ⟨second, hsecond⟩ :=
    Grouping.exists_ofRecords_iff.2 (by decide : ∀ r ∈ [], Record.IsTrial .cluster r)
  have hfound :
      ((Baseline.parse .am "am.json" recordedTwo).toOption.bind fun am =>
        (Baseline.parse .cluster "cluster.json" "\x7b\x7d").toOption.map fun cluster =>
          (Rows.findings slowRun [] ⟨am, cluster⟩ .standard).map (·.configuration)) =
        some [⟨"a", 256, 16, 10⟩, ⟨"b", 256, 16, 10⟩] := by
    decide +kernel
  simp only [Option.bind_eq_some_iff, Option.map_eq_some_iff, toOption_eq_some_iff] at hfound
  obtain ⟨am, ham, cluster, hcluster, hfound⟩ := hfound
  have hp : Policy.standard.fault? = none := Option.isNone_iff_eq_none.1 (by decide +kernel)
  obtain ⟨-, a, ha, hfindings⟩ :=
    make_eq_findings (b := ⟨am, cluster⟩) hfirst hsecond ham hcluster hp
  exact ⟨first, second, ⟨am, cluster⟩, a, hfirst, hsecond, ham, hcluster, ha, by
    rw [hfindings, hfound]⟩

end Assessment

end PerfGate
