import Mathlib.Algebra.BigOperators.Group.List.Lemmas
import Mathlib.Algebra.GroupWithZero.Nat
import PerfGate.Proofs.Grouping.Table
import PerfGate.Proofs.Rows.Basic

/-!
# Grouping — groups are summaries of rows

Grouping goes through a table with an index and one column of values for each metric. The groups are
described from the rows alone: the group of a configuration is the summary of the rows with that
configuration (`Rows.group`), and the groups stand in the order in which the configurations first
occur (`ofRecords_summarizes`). The index finds each group and no other (`Summarizes.get?_eq`).
-/

namespace PerfGate

/-! ## From trials to rows -/

section Trials

variable {w : Workload} {rs : List Record} {ts : List Trial}

/-- Trials have the configurations of the rows that they come from. -/
theorem configurations_of_trials
    (h : List.Forall₂ (fun r t => Trial.ofRecord w r = .ok t) rs ts) :
    Trial.configurations ts = Rows.configurations w rs := by
  suffices ts.map (·.configuration) = rs.filterMap (·.configuration? w) by
    rw [Trial.configurations, this, Rows.configurations]
  induction h with
  | nil => rfl
  | cons hr _ ih =>
      rw [List.map_cons, List.filterMap_cons_some (Record.trial_eq_ok_iff.1 hr).1, ih]

/-- The trials of a configuration come from the rows of that configuration. -/
theorem filter_configuration_of_trials
    (h : List.Forall₂ (fun r t => Trial.ofRecord w r = .ok t) rs ts) (c : Configuration) :
    List.Forall₂ (fun r t => Trial.ofRecord w r = .ok t)
      (Rows.ofConfiguration w rs c) (ts.filter (·.configuration = c)) := by
  apply List.rel_filter _ h
  intro r t hr
  simp [(Record.trial_eq_ok_iff.1 hr).1]

end Trials

/-! ## Columns -/

namespace Series

/-- One row adds its value of each metric to the column of that metric. -/
theorem add_columns {r : Record} {ms : List Metric} {xs : List Binary64}
    (h : List.Forall₂ (fun m x => r.value? m = some x) ms xs) (c : Configuration)
    (columns : Metric → List Binary64) :
    Series.add xs ⟨c, ms.map columns⟩ =
      ⟨c, ms.map fun m => columns m ++ (r.value? m).toList⟩ := by
  suffices (ms.map columns).zipWith (fun column x => column ++ [x]) xs =
      ms.map fun m => columns m ++ (r.value? m).toList by rw [add, this]
  induction h with
  | nil => rfl
  | cons hx _ ih => simp only [List.map_cons, List.zipWith_cons_cons, ih, hx, Option.toList_some]

/-- All rows together add their values of each metric, in order. -/
theorem foldl_add_columns {w : Workload} {rs : List Record} {ts : List Trial}
    (h : List.Forall₂ (fun r t => Trial.ofRecord w r = .ok t) rs ts) (c : Configuration)
    (columns : Metric → List Binary64) :
    ts.foldl (fun (s : Series) t => s.add t.values) ⟨c, w.metrics.map columns⟩ =
      ⟨c, w.metrics.map fun m => columns m ++ rs.filterMap (·.value? m)⟩ := by
  induction h generalizing columns with
  | nil => simp
  | @cons r t rs ts hr _ ih =>
      rw [List.foldl_cons, add_columns (Record.trial_eq_ok_iff.1 hr).2, ih]
      congr 1
      apply List.map_congr_left
      intro m _
      cases hv : r.value? m <;> simp [hv]

/-- The columns of a series are the values of its rows. -/
theorem collect_eq {w : Workload} {rs : List Record} {ts : List Trial}
    (h : List.Forall₂ (fun r t => Trial.ofRecord w r = .ok t) rs ts) (c : Configuration) :
    collect w ts c = ⟨c, w.metrics.map (Rows.values w rs c)⟩ :=
  foldl_add_columns (filter_configuration_of_trials h c) c fun _ => []

end Series

/-! ## Groups -/

/-- The rows of all configurations together are all rows. -/
theorem Rows.sum_length_ofConfiguration {w : Workload} {rs : List Record}
    (h : ∀ r ∈ rs, (r.configuration? w).isSome) :
    ((Rows.configurations w rs).map fun c => (Rows.ofConfiguration w rs c).length).sum =
      rs.length := by
  have hcount : ∀ c, (Rows.ofConfiguration w rs c).length =
      (rs.filterMap (·.configuration? w)).count c := by
    intro c
    rw [List.count_filterMap, List.countP_eq_length_filter, Rows.ofConfiguration]
    congr 1
    exact List.filter_congr fun r _ => (Bool.beq_eq_decide_eq _ _).symm
  have hlength : (rs.filterMap (·.configuration? w)).length = rs.length := by
    rw [List.length_filterMap_eq_countP, List.countP_eq_length]
    exact h
  -- each configuration counts once, with all of its rows
  have hperm : (Rows.configurations w rs).Perm (rs.filterMap (·.configuration? w)).dedup := by
    unfold Rows.configurations
    rw [List.perm_ext_iff_of_nodup (nodup_eraseDups _) (List.nodup_dedup _)]
    intro c
    rw [List.mem_eraseDups, List.mem_dedup]
  simp only [hcount]
  rw [(hperm.map _).sum_eq, List.sum_map_count_dedup_eq_length, hlength]

theorem Workload.metrics_ne_nil (w : Workload) : w.metrics ≠ [] := by
  cases w <;> simp [metrics]

/-- The number of trials of a series is the length of its first column, and so the number of its
rows. -/
theorem Series.trials_collect {w : Workload} {rs : List Record} {ts : List Trial}
    (h : List.Forall₂ (fun r t => Trial.ofRecord w r = .ok t) rs ts) (c : Configuration) :
    (Series.collect w ts c).trials = (Rows.ofConfiguration w rs c).length := by
  have htrial : ∀ r ∈ rs, r.IsTrial w := by
    simp only [Record.isTrial_iff]
    exact exists_forall₂_iff.1 ⟨ts, h⟩
  obtain ⟨m, ms, hms⟩ := List.exists_cons_of_ne_nil w.metrics_ne_nil
  have hlength := Rows.values_length htrial c (m := m) (by rw [hms]; exact List.mem_cons_self)
  rw [Series.collect_eq h, Series.trials, hms, ← hlength]
  rfl

/-- The group that a series gives is the summary of its rows. -/
theorem Group.ofSeries_collect {w : Workload} {rs : List Record} {ts : List Trial}
    (h : List.Forall₂ (fun r t => Trial.ofRecord w r = .ok t) rs ts) (c : Configuration) :
    Group.ofSeries w (Series.collect w ts c) = Rows.group w rs c := by
  have hstats : w.metrics.zip ((Series.collect w ts c).columns.map Stats.ofList) =
      w.metrics.map fun m => (m, Stats.ofList (Rows.values w rs c m)) := by
    rw [Series.collect_eq h, List.map_map, List.map_prod_left_eq_zip]
    rfl
  unfold Group.ofSeries Rows.group
  rw [Series.trials_collect h, hstats, Series.collect_eq h]

namespace Grouping

/-- Groups that summarize rows: one for each configuration, and an index of their places. -/
structure Summarizes (w : Workload) (rs : List Record) (g : Grouping) : Prop where
  workload : g.workload = w
  groups : g.groups = (Rows.configurations w rs).map (Rows.group w rs)
  index : ∀ c i, g.index.lookup c = some i ↔ (Rows.configurations w rs)[i]? = some c

/-- Grouping succeeds exactly on trials. -/
theorem exists_ofRecords_iff {w : Workload} {rs : List Record} :
    (∃ g, ofRecords w rs = .ok g) ↔ ∀ r ∈ rs, r.IsTrial w := by
  simp only [Record.isTrial_iff, ← exists_mapM_eq_ok_iff, ofRecords, map_eq_ok_iff]
  constructor
  · rintro ⟨_, ts, hts, _⟩
    exact ⟨ts, hts⟩
  · rintro ⟨ts, hts⟩
    exact ⟨_, ts, hts, rfl⟩

/-- Groups are made of the members of rows. The numbers of their lines have no part in them. -/
theorem ofRecords_congr {w : Workload} {rs rs' : List Record}
    (h : rs.map (·.members) = rs'.map (·.members)) {g : Grouping} :
    ofRecords w rs = .ok g ↔ ofRecords w rs' = .ok g := by
  have hmembers : ∀ (l : List Record) (ts : List Trial), l.mapM (Trial.ofRecord w) = .ok ts ↔
      List.Forall₂ (fun members t => Trial.ofRecord w ⟨0, members⟩ = .ok t)
        (l.map (·.members)) ts := by
    intro l ts
    rw [mapM_eq_ok_iff, List.forall₂_map_left_iff]
    have hline : ∀ r t, Trial.ofRecord w r = .ok t ↔ Trial.ofRecord w ⟨0, r.members⟩ = .ok t :=
      fun r t => Record.trial_congr (r := r) (s := ⟨0, r.members⟩) rfl
    simp only [hline]
  simp only [ofRecords, map_eq_ok_iff, hmembers, h]

/-- **Refinement**: the groups of rows are the summaries of the rows of each configuration. -/
theorem ofRecords_summarizes {w : Workload} {rs : List Record} {g : Grouping}
    (h : ofRecords w rs = .ok g) : Summarizes w rs g := by
  rw [ofRecords, map_eq_ok_iff] at h
  obtain ⟨ts, hts, rfl⟩ := h
  rw [mapM_eq_ok_iff] at hts
  have htable := SeriesTable.describes_ofTrials w ts
  have horder := configurations_of_trials hts
  refine ⟨rfl, ?_, ?_⟩
  · show (SeriesTable.ofTrials w ts).series.map (Group.ofSeries w) = _
    rw [htable.series, List.map_map, ← horder]
    exact List.map_congr_left fun c _ => Group.ofSeries_collect hts c
  · rw [← horder]
    exact htable.index

/-- Looking a configuration up gives the summary of its rows, if it has any. -/
theorem Summarizes.get?_eq {w : Workload} {rs : List Record} {g : Grouping}
    (h : Summarizes w rs g) (c : Configuration) :
    g.get? c = if Rows.ofConfiguration w rs c = [] then none else some (Rows.group w rs c) := by
  unfold get?
  cases hi : g.index.lookup c with
  | none =>
      have hnone : c ∉ Rows.configurations w rs := by
        rw [List.mem_iff_getElem?, not_exists]
        intro i hc
        rw [(h.index c i).2 hc] at hi
        cases hi
      rw [Rows.mem_configurations, not_not] at hnone
      rw [if_pos hnone]
      rfl
  | some i =>
      -- the place in the index is the place among the groups, which stand like the configurations
      have hplace := (h.index c i).1 hi
      have hmem := Rows.mem_configurations.1 (List.mem_of_getElem? hplace)
      rw [if_neg hmem, Option.bind_some, h.groups, List.getElem?_map, hplace]
      rfl

/-! ## What grouping promises -/

namespace Summarizes

variable {w : Workload} {rs : List Record} {g : Grouping}

theorem map_configuration (h : Summarizes w rs g) :
    g.groups.map (·.configuration) = Rows.configurations w rs := by
  rw [h.groups, List.map_map]
  exact List.map_id _

theorem nodup_configuration (h : Summarizes w rs g) :
    (g.groups.map (·.configuration)).Nodup := by
  rw [h.map_configuration]
  exact nodup_eraseDups _

/-- The index points at each group, and nowhere else. -/
theorem lookup_eq_some_iff (h : Summarizes w rs g) {c : Configuration} {i : Nat} :
    g.index.lookup c = some i ↔ ∃ hi : i < g.groups.length, g.groups[i].configuration = c := by
  rw [h.index, ← h.map_configuration, List.getElem?_map, Option.map_eq_some_iff]
  constructor
  · rintro ⟨group, hgroup, hc⟩
    obtain ⟨hi, rfl⟩ := List.getElem?_eq_some_iff.1 hgroup
    exact ⟨hi, hc⟩
  · rintro ⟨hi, hc⟩
    exact ⟨g.groups[i], List.getElem?_eq_getElem hi, hc⟩

theorem get?_eq_some_iff (h : Summarizes w rs g) {c : Configuration} {group : Group} :
    g.get? c = some group ↔ group ∈ g.groups ∧ group.configuration = c := by
  rw [h.get?_eq, h.groups, List.mem_map]
  constructor
  · intro hget
    split at hget
    · cases hget
    · rename_i hrows
      cases hget
      exact ⟨⟨c, Rows.mem_configurations.2 hrows, rfl⟩, rfl⟩
  · rintro ⟨⟨d, hd, rfl⟩, rfl⟩
    exact if_neg (Rows.mem_configurations.1 hd)

theorem trialCount_eq (h : Summarizes w rs g) (c : Configuration) :
    g.trialCount c = (Rows.ofConfiguration w rs c).length := by
  unfold trialCount
  rw [h.get?_eq]
  split
  · rename_i hrows
    rw [hrows]
    rfl
  · rfl

end Summarizes

/-- Every row is in exactly one group. -/
theorem sum_trials {w : Workload} {rs : List Record} {g : Grouping}
    (h : ofRecords w rs = .ok g) : (g.groups.map (·.trials)).sum = rs.length := by
  have htrial := exists_ofRecords_iff.1 ⟨g, h⟩
  rw [(ofRecords_summarizes h).groups, List.map_map]
  exact Rows.sum_length_ofConfiguration fun r hr => (htrial r hr).1

/-- Grouping refines its plain description: the groups have distinct configurations, in the order in
which the rows first mention them; the index finds the group of every configuration that has one
and nothing else; trials are counted and none is lost; and the summary of each metric is that of the
values on the rows of the configuration, in the order of the rows. -/
theorem ofRecords_refines_rows {w : Workload} {rs : List Record} {g : Grouping}
    (h : ofRecords w rs = .ok g) :
    (g.groups.map (·.configuration)).Nodup ∧
    g.groups.map (·.configuration) = Rows.configurations w rs ∧
    (∀ c i, g.index.lookup c = some i ↔
      ∃ hi : i < g.groups.length, g.groups[i].configuration = c) ∧
    (∀ c group, g.get? c = some group ↔ group ∈ g.groups ∧ group.configuration = c) ∧
    (∀ c, g.trialCount c = (Rows.ofConfiguration w rs c).length) ∧
    (g.groups.map (·.trials)).sum = rs.length ∧
    (∀ group ∈ g.groups,
      group.trials = (Rows.ofConfiguration w rs group.configuration).length ∧
      group.stats = w.metrics.map fun m =>
        (m, Stats.ofList (Rows.values w rs group.configuration m))) ∧
    (∀ c, ∀ m ∈ w.metrics, (Rows.ofConfiguration w rs c).map (·.value? m) =
      (Rows.values w rs c m).map some) := by
  have hg := ofRecords_summarizes h
  refine ⟨hg.nodup_configuration, hg.map_configuration, fun c i => hg.lookup_eq_some_iff,
    fun c group => hg.get?_eq_some_iff, hg.trialCount_eq, sum_trials h, ?_, ?_⟩
  · intro group hgroup
    rw [hg.groups] at hgroup
    obtain ⟨c, _, rfl⟩ := List.mem_map.1 hgroup
    exact ⟨rfl, rfl⟩
  · intro c m hm
    exact Rows.map_value?_eq (exists_ofRecords_iff.1 ⟨g, h⟩) c hm

/-- Trials of one configuration with one of another between them. The last row spells its size as a
string. -/
def interleavedRows : List Record :=
  let row := Record.spelling .cluster
  let last := row 9 ⟨"b", 256, 16, 0⟩ [5, 6]
  [row 3 ⟨"b", 256, 16, 100⟩ [7, 2], row 5 ⟨"a", 256, 16, 100⟩ [9, 4],
    { last with members := last.members.set "updates" (.string " +100") }]

theorem interleavedRows_refined : ∃ g, ofRecords .cluster interleavedRows = .ok g ∧
    g.groups.map (·.configuration) = [⟨"b", 256, 16, 100⟩, ⟨"a", 256, 16, 100⟩] ∧
    g.trialCount ⟨"b", 256, 16, 100⟩ = 2 ∧ g.trialCount ⟨"b", 256, 16, 0⟩ = 0 := by
  have htrial : ∀ r ∈ interleavedRows, r.IsTrial .cluster := by decide
  obtain ⟨g, hg⟩ := exists_ofRecords_iff.2 htrial
  obtain ⟨-, hconfigurations, -, -, hcount, -⟩ := ofRecords_refines_rows hg
  exact ⟨g, hg, hconfigurations.trans (by decide), (hcount _).trans (by decide),
    (hcount _).trans (by decide)⟩

end Grouping

end PerfGate
