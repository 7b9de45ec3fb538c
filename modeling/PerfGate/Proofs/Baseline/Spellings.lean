import Mathlib.Data.Option.Basic
import PerfGate.Proofs.Assessment.Locality
import PerfGate.Proofs.Assessment.Rows

/-!
# Baseline — the spellings of a configuration

A document has each key once, but several keys can spell one configuration: with other spaces, with a
size as a double or as a string. Every spelling is an entry of its own, and what is found about a
configuration is found for each of them (`countP_isMissing_compare`, `countP_isDrop_compare_le`). So
nothing is reported twice exactly if no two keys of the document spell one configuration.
-/

namespace PerfGate

theorem Workload.nodup_metrics (w : Workload) : w.metrics.Nodup := by
  cases w <;> decide

namespace Baseline

/-- The entries of a configuration. -/
def entryCount (b : Baseline) (c : Configuration) : Nat :=
  b.entries.countP (·.configuration = c)

/-- There is one entry for each configuration exactly if none has two. -/
theorem nodup_configuration_iff (b : Baseline) :
    (b.entries.map (·.configuration)).Nodup ↔ ∀ c, b.entryCount c ≤ 1 := by
  rw [List.nodup_iff_count_le_one]
  apply forall_congr'
  intro c
  rw [entryCount, List.count, List.countP_map]
  rfl

/-! ## Documents -/

/-- The entries of a document are spelled by its keys, one by each. -/
theorem exists_keys_of_parse {w : Workload} {path text : String} {b : Baseline}
    (h : parse w path text = .ok b) : ∃ members, Json.parseObject? text.toList = some members ∧
      (members.map Prod.fst).Nodup ∧
      members.map (fun m => readKey? m.1) = b.entries.map fun entry => some entry.configuration := by
  obtain ⟨members, hmembers, hentries⟩ := parse_eq_ok_iff.1 h
  refine ⟨members, hmembers, Json.nodup_of_parseObject? hmembers, ?_⟩
  exact map_eq_map_of_forall₂ (hentries.imp fun _ _ haccepted =>
    readKey?_eq_some_iff.2 haccepted.key)

end Baseline

/-! ## Findings of one entry -/

namespace Grouping

theorem countP_isMissing_compareEntry (g : Grouping) (p : Policy) (entry : BaselineEntry)
    (c : Configuration) : (g.compareEntry p entry).countP (Finding.isMissing c) =
      if entry.configuration = c ∧ g.get? c = none then 1 else 0 := by
  unfold compareEntry
  cases hget : g.get? entry.configuration with
  | none =>
      by_cases hc : entry.configuration = c
      · subst hc
        simp [Finding.isMissing, hget]
      · simp [Finding.isMissing, hc]
  | some group =>
      -- a configuration with a group can only have dropped
      have hdrops : (g.workload.metrics.filterMap (drop? p group entry)).countP
          (Finding.isMissing c) = 0 := by
        rw [List.countP_eq_zero]
        intro f hf
        obtain ⟨m, -, hm⟩ := List.mem_filterMap.1 hf
        obtain ⟨_, _, _, _, rfl⟩ := exists_drop_of_drop? hm
        exact Bool.false_ne_true
      have hnot : ¬ (entry.configuration = c ∧ g.get? c = none) := by
        rintro ⟨rfl, hnone⟩
        rw [hnone] at hget
        cases hget
      rw [if_neg hnot]
      exact hdrops

/-- Each metric of an entry is looked at once. -/
theorem countP_isDrop_compareEntry_le (g : Grouping) (p : Policy) (entry : BaselineEntry)
    (m : Metric) (c : Configuration) : (g.compareEntry p entry).countP (Finding.isDrop m c) ≤
      if entry.configuration = c then 1 else 0 := by
  unfold compareEntry
  cases g.get? entry.configuration with
  | none => simp [Finding.isDrop]
  | some group =>
      show (g.workload.metrics.filterMap (drop? p group entry)).countP (Finding.isDrop m c) ≤ _
      rw [List.countP_filterMap]
      have hdrop : ∀ n, ((drop? p group entry n).map (Finding.isDrop m c)).getD false = true →
          n = m ∧ entry.configuration = c := by
        intro n hn
        cases hf : drop? p group entry n with
        | none => simp [hf] at hn
        | some f =>
            obtain ⟨_, _, _, _, rfl⟩ := exists_drop_of_drop? hf
            simpa [hf, Finding.isDrop] using hn
      by_cases hc : entry.configuration = c
      · rw [if_pos hc]
        calc _ ≤ g.workload.metrics.countP (· == m) :=
              List.countP_mono_left fun n _ hn => beq_iff_eq.2 (hdrop n hn).1
          _ ≤ 1 := List.nodup_iff_count_le_one.1 g.workload.nodup_metrics m
      · rw [if_neg hc, Nat.le_zero, List.countP_eq_zero]
        exact fun n _ hn => hc (hdrop n hn).2

/-! ## Findings of a baseline -/

/-- A configuration without trials is missing once for each of its entries. -/
theorem countP_isMissing_compare (g : Grouping) (p : Policy) (b : Baseline) (c : Configuration) :
    (g.compare p b).countP (Finding.isMissing c) =
      if g.get? c = none then b.entryCount c else 0 := by
  unfold compare Baseline.entryCount
  induction b.entries with
  | nil => simp
  | cons entry rest ih =>
      rw [List.flatMap_cons, List.countP_append, countP_isMissing_compareEntry, ih, List.countP_cons]
      by_cases hget : g.get? c = none
      · by_cases hc : entry.configuration = c
        · simp [hget, hc, Nat.add_comm]
        · simp [hget, hc]
      · simp [hget]

/-- A metric of a configuration drops at most once for each of its entries. -/
theorem countP_isDrop_compare_le (g : Grouping) (p : Policy) (b : Baseline) (m : Metric)
    (c : Configuration) : (g.compare p b).countP (Finding.isDrop m c) ≤ b.entryCount c := by
  unfold compare Baseline.entryCount
  induction b.entries with
  | nil => simp
  | cons entry rest ih =>
      have hentry := countP_isDrop_compareEntry_le g p entry m c
      rw [List.flatMap_cons, List.countP_append, List.countP_cons]
      by_cases hc : entry.configuration = c
      · simp only [hc, if_true, decide_true] at hentry ⊢
        omega
      · simp only [hc, if_false, decide_false, Bool.false_eq_true] at hentry ⊢
        omega

end Grouping

/-! ## Entries and keys -/

namespace Baseline

variable {w : Workload} {b : Baseline}

/-- No run of the workload is told anything twice that it is held against the baseline for: neither
that a configuration is missing nor that a metric of it has dropped. -/
def ReportedOnce (w : Workload) (b : Baseline) : Prop :=
  ∀ rs g, Grouping.ofRecords w rs = .ok g → ∀ p c,
    (g.compare p b).countP (Finding.isMissing c) ≤ 1 ∧
    ∀ m, (g.compare p b).countP (Finding.isDrop m c) ≤ 1

/-- A run without trials misses each configuration as often as it has entries. -/
theorem reportedOnce_iff (w : Workload) (b : Baseline) :
    b.ReportedOnce w ↔ (b.entries.map (·.configuration)).Nodup := by
  rw [nodup_configuration_iff]
  constructor
  · intro h c
    have hempty := (h [] _ rfl Policy.standard c).1
    rw [Grouping.countP_isMissing_compare] at hempty
    exact hempty
  · intro h rs g _ p c
    constructor
    · rw [Grouping.countP_isMissing_compare]
      split
      · exact h c
      · exact Nat.zero_le 1
    · intro m
      exact (Grouping.countP_isDrop_compare_le g p b m c).trans (h c)

/-- A document that is accepted has each key once, and each key is an entry of the configuration that
it spells. A run is told that a configuration is missing as often as the configuration is spelled, and
of a drop at most as often. So there is one entry for each configuration, and nothing is reported
twice, exactly if no two keys of the document spell one configuration. -/
theorem parse_spellings {path text : String} (h : parse w path text = .ok b) :
    ∃ members, Json.parseObject? text.toList = some members ∧ (members.map Prod.fst).Nodup ∧
      (∀ c, b.entryCount c = members.countP fun m => readKey? m.1 = some c) ∧
      (∀ (g : Grouping) (p : Policy) (c : Configuration),
        (g.compare p b).countP (Finding.isMissing c) =
          (if g.get? c = none then b.entryCount c else 0) ∧
        ∀ m, (g.compare p b).countP (Finding.isDrop m c) ≤ b.entryCount c) ∧
      ((b.entries.map (·.configuration)).Nodup ↔ (members.map fun m => readKey? m.1).Nodup) ∧
      (b.ReportedOnce w ↔ (members.map fun m => readKey? m.1).Nodup) := by
  obtain ⟨members, hmembers, hnodup, hkeys⟩ := exists_keys_of_parse h
  have hdistinct : (b.entries.map (·.configuration)).Nodup ↔
      (members.map fun m => readKey? m.1).Nodup := by
    rw [hkeys, ← List.nodup_map_iff (Option.some_injective Configuration), List.map_map]
    rfl
  refine ⟨members, hmembers, hnodup, fun c => ?_, fun g p c => ⟨?_, fun m => ?_⟩, hdistinct, ?_⟩
  · have hcount := congrArg (List.countP fun c? => c? = some c) hkeys
    rw [List.countP_map, List.countP_map] at hcount
    simpa [entryCount, Function.comp_def] using hcount.symm
  · exact Grouping.countP_isMissing_compare g p b c
  · exact Grouping.countP_isDrop_compare_le g p b m c
  · rw [reportedOnce_iff, hdistinct]

/-- Two keys that spell two configurations. -/
theorem recordedTwo_reportedOnce : ∃ b, parse .am "am_bench.json" Assessment.recordedTwo = .ok b ∧
    b.entryCount ⟨"a", 256, 16, 10⟩ = 1 ∧ b.ReportedOnce .am := by
  have hentries :
      ((parse .am "am_bench.json" Assessment.recordedTwo).toOption.map fun b =>
        b.entries.map (·.configuration)) = some [⟨"a", 256, 16, 10⟩, ⟨"b", 256, 16, 10⟩] := by
    decide +kernel
  simp only [Option.map_eq_some_iff, toOption_eq_some_iff] at hentries
  obtain ⟨b, hb, hentries⟩ := hentries
  obtain ⟨members, -, -, -, -, hdistinct, honce⟩ := parse_spellings hb
  refine ⟨b, hb, ?_, honce.2 (hdistinct.1 ?_)⟩
  · have hcount : (b.entries.map (·.configuration)).count ⟨"a", 256, 16, 10⟩ = 1 := by
      rw [hentries]
      decide
    rwa [List.count, List.countP_map] at hcount
  · rw [hentries]
    decide

/-- A document that spells one configuration in two ways, and records different means for it. -/
def spelledTwice : String :=
  let entry (key : String) (mean : String) : String :=
    "\"" ++ key ++ "\": \x7b\"queries_per_sec\": [" ++ mean ++ "], \"eff_gb_per_sec\": [2]\x7d"
  "\x7b" ++ entry "[\\\"a\\\",256,16,10]" "100" ++ ", " ++
    entry "[\\\"a\\\", 256, 16.0, \\\"10\\\"]" "90" ++ "\x7d"

/-- Two spellings of one configuration are accepted. A run without it misses it twice, and a run with
it is held against both recorded means. -/
theorem spelledTwice_reportedTwice :
    ∃ b, parse .am "am_bench.json" spelledTwice = .ok b ∧
      b.entries.map (·.configuration) = [⟨"a", 256, 16, 10⟩, ⟨"a", 256, 16, 10⟩] ∧
      (∃ g, Grouping.ofRecords .am [] = .ok g ∧
        (g.compare .standard b).countP (Finding.isMissing ⟨"a", 256, 16, 10⟩) = 2) ∧
      ∃ g, Grouping.ofRecords .am Assessment.slowRun = .ok g ∧
        (g.compare .standard b).countP (Finding.isDrop .queries ⟨"a", 256, 16, 10⟩) = 2 := by
  have hfound :
      ((parse .am "am_bench.json" spelledTwice).toOption.map fun b =>
        (b.entries.map (·.configuration),
          (b.entries.flatMap (Rows.compareEntry .am [] .standard)).countP
            (Finding.isMissing ⟨"a", 256, 16, 10⟩),
          (b.entries.flatMap (Rows.compareEntry .am Assessment.slowRun .standard)).countP
            (Finding.isDrop .queries ⟨"a", 256, 16, 10⟩))) =
        some ([⟨"a", 256, 16, 10⟩, ⟨"a", 256, 16, 10⟩], 2, 2) := by
    decide +kernel
  simp only [Option.map_eq_some_iff, toOption_eq_some_iff, Prod.mk.injEq] at hfound
  obtain ⟨b, hb, hentries, hmissing, hdrops⟩ := hfound
  obtain ⟨empty, hempty⟩ :=
    Grouping.exists_ofRecords_iff.2 (by decide : ∀ r ∈ [], Record.IsTrial .am r)
  obtain ⟨slow, hslow⟩ :=
    Grouping.exists_ofRecords_iff.2 (by decide : ∀ r ∈ Assessment.slowRun, r.IsTrial .am)
  have hcomplete := parse_complete hb
  refine ⟨b, hb, hentries, ⟨empty, hempty, ?_⟩, slow, hslow, ?_⟩
  · rw [Rows.compare_eq (Grouping.ofRecords_summarizes hempty) _ hcomplete]
    exact hmissing
  · rw [Rows.compare_eq (Grouping.ofRecords_summarizes hslow) _ hcomplete]
    exact hdrops

end Baseline

end PerfGate
