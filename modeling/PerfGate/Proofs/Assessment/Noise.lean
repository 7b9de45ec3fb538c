import PerfGate.Proofs.Assessment.Rows
import PerfGate.Proofs.Rows.Finite

/-!
# Assessment — which noise is found

A metric of a configuration is noisy if its mean is positive and the ratio of its deviation to its
mean is above the limit (`Rows.mem_noise_iff`). Of two numbers one is above the other or it is not,
so noise goes unnoticed only where the ratio is no number. That is the case exactly if the mean is
infinite, which takes values above `2 ^ 971` (`noise_unless_infinite`).
-/

namespace PerfGate

open Binary64

/-- The noise limit of a policy that makes sense is finite. -/
theorem Policy.isFinite_noiseLimit {p : Policy} (h : p.fault? = none) : p.noiseLimit.isFinite := by
  unfold fault? at h
  split_ifs at h with _ _ hlimit
  simp only [Bool.not_eq_true', Bool.not_eq_false, Bool.and_eq_true] at hlimit
  exact hlimit.1

namespace Rows

variable {w : Workload} {rs : List Record} {p : Policy} {c : Configuration} {m : Metric}

/-- The noise of a metric is found if its configuration was run often enough, its mean is positive
and the ratio of its deviation to its mean is above the limit. -/
theorem mem_noise_iff {variation limit : Binary64} :
    .noise m c variation limit ∈ noise w rs p ↔
      (c ∈ configurations w rs ∧ p.minTrials ≤ (ofConfiguration w rs c).length ∧ m ∈ w.metrics) ∧
      (.zero false < mean w rs c m ∧ p.noiseLimit < stdev w rs c m / mean w rs c m) ∧
      variation = stdev w rs c m / mean w rs c m ∧ limit = p.noiseLimit := by
  simp only [noise, noise?, List.mem_flatMap, List.mem_filter, List.mem_filterMap,
    Option.ite_none_right_eq_some, Option.some.injEq, Finding.noise.injEq, decide_eq_true_eq]
  constructor
  · rintro ⟨_, ⟨hc, htrials⟩, _, hm, hnoise, rfl, rfl, rfl, rfl⟩
    exact ⟨⟨hc, htrials, hm⟩, hnoise, rfl, rfl⟩
  · rintro ⟨⟨hc, htrials, hm⟩, hnoise, rfl, rfl⟩
    exact ⟨c, ⟨hc, htrials⟩, m, hm, hnoise, rfl, rfl, rfl, rfl⟩

/-! ## When the ratio is a number -/

section Ratio

variable (hrs : ∀ r ∈ rs, r.Finite) (hlen : rs.length < UInt64.size)

include hrs hlen

theorem variation_eq_nan_iff (hmean : .zero false < mean w rs c m) :
    stdev w rs c m / mean w rs c m = .nan ↔ mean w rs c m = .infinite false :=
  Stats.variation_eq_nan_iff (values_isFinite hrs c m) ((length_values_le c m).trans_lt hlen) hmean

/-- With a finite mean, noise is found or the ratio is within the limit. -/
theorem noise_of_finite (hp : p.fault? = none) (hc : c ∈ configurations w rs)
    (htrials : p.minTrials ≤ (ofConfiguration w rs c).length) (hm : m ∈ w.metrics)
    (hmean : .zero false < mean w rs c m) (hfinite : mean w rs c m ≠ .infinite false) :
    stdev w rs c m / mean w rs c m ≠ .nan ∧
      (.noise m c (stdev w rs c m / mean w rs c m) p.noiseLimit ∈ noise w rs p ∨
        stdev w rs c m / mean w rs c m ≤ p.noiseLimit) := by
  have hnumber := mt (variation_eq_nan_iff hrs hlen hmean).1 hfinite
  have hlimit := ne_nan_of_isFinite (Policy.isFinite_noiseLimit hp)
  refine ⟨hnumber, ?_⟩
  rcases le_or_lt hnumber hlimit with hle | hlt
  · exact .inr hle
  · exact .inl (mem_noise_iff.2 ⟨⟨hc, htrials, hm⟩, ⟨hmean, hlt⟩, rfl, rfl⟩)

/-- With an infinite mean, the ratio is NaN and no noise is found. -/
theorem noise_of_infinite (hinfinite : mean w rs c m = .infinite false) :
    stdev w rs c m / mean w rs c m = .nan ∧
      ∀ variation limit, .noise m c variation limit ∉ noise w rs p := by
  have hmean : .zero false < mean w rs c m := by
    rw [hinfinite]
    exact zero_lt_infinite
  have hnan := (variation_eq_nan_iff hrs hlen hmean).2 hinfinite
  refine ⟨hnan, ?_⟩
  intro variation limit hmem
  obtain ⟨-, ⟨-, hlt⟩, -⟩ := mem_noise_iff.1 hmem
  rw [hnan] at hlt
  exact not_lt_nan _ hlt

end Ratio

/-- A metric has an infinite mean only if one of its values is above `2 ^ 971`. -/
theorem mean_ne_infinite (hvalues : ∀ x ∈ values w rs c m, x.IsAddable)
    (hlen : (values w rs c m).length < 1 <<< 53) : mean w rs c m ≠ .infinite false := by
  have hfinite := Stats.meanOf_isFinite (sum_of_addable hvalues hlen).1
  intro hinfinite
  rw [mean] at hinfinite
  rw [hinfinite] at hfinite
  cases hfinite

end Rows

namespace Grouping

/-- Noise is found unless the mean is infinite. Let a configuration be run often enough and the mean
of a metric be positive. If the mean is finite, the ratio of deviation to mean is a number, and it
is reported or it is within the limit. If the mean is infinite, the ratio is NaN, and no noise of
the metric is reported, however far its values are apart. The mean of fewer than `2 ^ 53` values up
to `2 ^ 971` is finite. -/
theorem noise_unless_infinite {w : Workload} {rs : List Record} {g : Grouping} {p : Policy}
    (h : ofRecords w rs = .ok g) (hrs : ∀ r ∈ rs, r.Finite) (hlen : rs.length < UInt64.size)
    (hp : p.fault? = none) :
    ∀ group ∈ g.groups, p.minTrials ≤ group.trials → ∀ m ∈ w.metrics, ∃ s,
      group.stats? m = some s ∧
      (.zero false < s.mean → s.mean ≠ .infinite false → s.stdev / s.mean ≠ .nan ∧
        (.noise m group.configuration (s.stdev / s.mean) p.noiseLimit ∈ g.noise p ∨
          s.stdev / s.mean ≤ p.noiseLimit)) ∧
      (s.mean = .infinite false → s.stdev / s.mean = .nan ∧
        ∀ variation limit, .noise m group.configuration variation limit ∉ g.noise p) ∧
      ((∀ x ∈ Rows.values w rs group.configuration m, x.IsAddable) → group.trials < 1 <<< 53 →
        s.mean ≠ .infinite false) := by
  have htrial := exists_ofRecords_iff.1 ⟨g, h⟩
  have hg := ofRecords_summarizes h
  rw [Rows.noise_eq hg, hg.groups, List.forall_mem_map]
  intro c hc htrials m hm
  refine ⟨_, Rows.stats?_group hm, Rows.noise_of_finite hrs hlen hp hc htrials hm,
    Rows.noise_of_infinite hrs hlen, ?_⟩
  intro haddable hfew
  have hcount := Rows.values_length htrial c hm
  exact Rows.mean_ne_infinite haddable (hcount.trans_lt hfew)

/-! ### Throughputs of one configuration -/

/-- A configuration of the first workload. -/
def sampled : Configuration := ⟨"a", 256, 16, 10⟩

/-- Trials of that configuration with the given throughputs. -/
def throughputTrials (throughputs : List Binary64) : List Record :=
  throughputs.map fun x => .measuring .am 1 sampled [x, .ofNat 2]

theorem finite_throughputTrials {throughputs : List Binary64}
    (h : ∀ x ∈ throughputs, x.isFinite) : ∀ r ∈ throughputTrials throughputs, r.Finite := by
  rw [throughputTrials, List.forall_mem_map]
  intro x hx
  apply Record.finite_measuring (by decide)
  rw [List.forall_mem_cons, List.forall_mem_singleton]
  exact ⟨h x hx, by decide +kernel⟩

theorem configuration?_throughputTrials (throughputs : List Binary64) :
    ∀ r ∈ throughputTrials throughputs, r.configuration? .am = some sampled :=
  List.forall_mem_map.2 fun _ _ => rfl

/-- Throughputs can be grouped, and their configuration has a group. -/
theorem exists_group_throughputTrials (throughputs : List Binary64) (hne : throughputs ≠ []) :
    ∃ g, ofRecords .am (throughputTrials throughputs) = .ok g ∧
      Rows.group .am (throughputTrials throughputs) sampled ∈ g.groups := by
  have htrial : ∀ r ∈ throughputTrials throughputs, r.IsTrial .am := by
    rw [throughputTrials, List.forall_mem_map]
    intro x _
    refine ⟨rfl, fun m hm => ?_⟩
    rcases List.mem_pair.1 hm with rfl | rfl
    · rfl
    · rfl
  have hrows : Rows.ofConfiguration .am (throughputTrials throughputs) sampled ≠ [] := by
    have hall : Rows.ofConfiguration .am (throughputTrials throughputs) sampled =
        throughputTrials throughputs :=
      List.filter_eq_self.2 fun r hr =>
        decide_eq_true (configuration?_throughputTrials throughputs r hr)
    rw [hall]
    exact mt List.map_eq_nil_iff.1 hne
  obtain ⟨g, hg⟩ := exists_ofRecords_iff.2 htrial
  refine ⟨g, hg, ?_⟩
  rw [(ofRecords_summarizes hg).groups]
  exact List.mem_map_of_mem (Rows.mem_configurations.2 hrows)

/-- Throughputs that are far apart. -/
def noisyThroughputs : List Binary64 := [.ofNat 1, .ofNat 2, .ofNat 9]

theorem noisyThroughputs_noticed : ∃ g s,
    ofRecords .am (throughputTrials noisyThroughputs) = .ok g ∧
    s = Stats.ofList noisyThroughputs ∧
    .noise .queries sampled (s.stdev / s.mean) Policy.standard.noiseLimit ∈ g.noise .standard := by
  obtain ⟨g, hg, hgroup⟩ := exists_group_throughputTrials noisyThroughputs (List.cons_ne_nil _ _)
  have hfinite : ∀ r ∈ throughputTrials noisyThroughputs, r.Finite :=
    finite_throughputTrials (by decide +kernel)
  have hp : Policy.standard.fault? = none := Option.isNone_iff_eq_none.1 (by decide +kernel)
  have hvalues : Rows.values .am (throughputTrials noisyThroughputs) sampled .queries =
      noisyThroughputs := by decide +kernel
  obtain ⟨s, hs, hnoise, -, -⟩ :=
    noise_unless_infinite hg hfinite (by decide) hp _ hgroup (by decide) .queries (by decide)
  rw [Rows.stats?_group (by decide), hvalues, Option.some.injEq] at hs
  subst hs
  obtain ⟨-, hfound⟩ := hnoise (by decide +kernel) (by decide +kernel)
  exact ⟨g, _, hg, rfl, hfound.resolve_right (by decide +kernel)⟩

/-- Two throughputs whose sum is too large for a double, and a small one. -/
def largeThroughputs : List Binary64 := [.ofNat (17 * 10 ^ 307), .ofNat (17 * 10 ^ 307), .ofNat 1]

/-- Noise goes unnoticed in a group whose ratio is not within the limit: its mean is infinite. -/
theorem largeThroughputs_unnoticed : ∃ g group s,
    ofRecords .am (throughputTrials largeThroughputs) = .ok g ∧
    (∀ r ∈ throughputTrials largeThroughputs, r.Finite) ∧ Policy.standard.fault? = none ∧
    group ∈ g.groups ∧ Policy.standard.minTrials ≤ group.trials ∧
    group.stats? .queries = some s ∧ .zero false < s.mean ∧
    s.stdev / s.mean = .nan ∧ g.noise .standard = [] := by
  obtain ⟨g, hg, hgroup⟩ := exists_group_throughputTrials largeThroughputs (List.cons_ne_nil _ _)
  have hfinite : ∀ r ∈ throughputTrials largeThroughputs, r.Finite :=
    finite_throughputTrials (by decide +kernel)
  have hp : Policy.standard.fault? = none := Option.isNone_iff_eq_none.1 (by decide +kernel)
  refine ⟨g, _, _, hg, hfinite, hp, hgroup, by decide, Rows.stats?_group (by decide), ?_, ?_, ?_⟩
  · decide +kernel
  · decide +kernel
  · rw [Rows.noise_eq (ofRecords_summarizes hg), ← List.length_eq_zero_iff]
    decide +kernel

end Grouping

end PerfGate
