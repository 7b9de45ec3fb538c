import PerfGate.Proofs.Assessment.Floor
import PerfGate.Proofs.Assessment.Noise
import PerfGate.Proofs.Assessment.Order

/-!
# Assessment — a looser policy finds no more

A policy is looser than another if each of its four numbers is at least as large. Its floors are no
higher, its noise limit is no lower and it exempts no fewer groups, so whatever it complains about
the other one complains about as well (`judged_looser`). What is found of a mean is a drop under
every policy: a floor is not above the recorded mean, and the mean is below the floor.
-/

namespace PerfGate

open Binary64

/-! ## Complaints -/

/-- What a finding complains about, without the numbers. -/
inductive Complaint where
  | missing (workload : Workload) (configuration : Configuration)
  | drop (metric : Metric) (configuration : Configuration)
  | noise (metric : Metric) (configuration : Configuration)
deriving DecidableEq

namespace Finding

/-- What a finding complains about. -/
def complaint : Finding → Complaint
  | .missing w c => .missing w c
  | .drop m c .. => .drop m c
  | .noise m c .. => .noise m c

end Finding

/-- The complaints of findings, in order. -/
def complaints (fs : List Finding) : List Complaint := fs.map Finding.complaint

theorem complaints_append (fs fs' : List Finding) :
    complaints (fs ++ fs') = complaints fs ++ complaints fs' :=
  List.map_append

/-- A policy that demands no more than another. -/
structure Policy.Looser (p p' : Policy) : Prop where
  throughput : p.throughputTolerance ≤ p'.throughputTolerance
  bandwidth : p.bandwidthTolerance ≤ p'.bandwidthTolerance
  noise : p.noiseLimit ≤ p'.noiseLimit
  trials : p.minTrials ≤ p'.minTrials

theorem Policy.Looser.tolerance {p p' : Policy} (h : p.Looser p') (kind : ToleranceKind) :
    p.tolerance kind ≤ p'.tolerance kind := by
  cases kind with
  | throughput => exact h.throughput
  | bandwidth => exact h.bandwidth

/-! ### One check after another -/

section Sublists

variable {α : Type} {xs : List α}

/-- A check that finds something only where another one complains of the same complains of no
more. -/
theorem complaints_filterMap_sublist {check check' : α → Option Finding}
    (h : ∀ x ∈ xs, ∀ f', check' x = some f' → ∃ f, check x = some f ∧ f.complaint = f'.complaint) :
    (complaints (xs.filterMap check')).Sublist (complaints (xs.filterMap check)) := by
  unfold complaints
  induction xs with
  | nil => exact .slnil
  | cons x rest ih =>
      rw [List.forall_mem_cons] at h
      have hrest := ih h.2
      cases hcheck' : check' x with
      | none =>
          rw [List.filterMap_cons_none hcheck']
          cases hcheck : check x with
          | none => rwa [List.filterMap_cons_none hcheck]
          | some f =>
              rw [List.filterMap_cons_some hcheck]
              exact hrest.cons _
      | some f' =>
          obtain ⟨f, hcheck, hsame⟩ := h.1 f' hcheck'
          rw [List.filterMap_cons_some hcheck', List.filterMap_cons_some hcheck, List.map_cons,
            List.map_cons, hsame]
          exact hrest.cons_cons _

theorem complaints_flatMap_sublist {check check' : α → List Finding}
    (h : ∀ x ∈ xs, (complaints (check' x)).Sublist (complaints (check x))) :
    (complaints (xs.flatMap check')).Sublist (complaints (xs.flatMap check)) := by
  unfold complaints at *
  induction xs with
  | nil => exact .slnil
  | cons x rest ih =>
      rw [List.forall_mem_cons] at h
      rw [List.flatMap_cons, List.flatMap_cons, List.map_append, List.map_append]
      exact h.1.append (ih h.2)

end Sublists

/-! ## Drops -/

namespace Grouping

variable {g : Grouping} {group : Group} {p p' : Policy} {w : Workload} {entry : BaselineEntry}
  {m : Metric}

/-- What a drop of a metric says. -/
theorem drop?_eq_some_iff (hentry : entry.Complete w) {f : Finding} :
    drop? p group entry m = some f ↔ ∃ current recorded,
      group.stats? m = some current ∧ entry.stats.lookup m.field = some recorded ∧
      .zero false < recorded.mean ∧
      ¬ FloorCheck.floorOf recorded.mean (p.tolerance m.tolerance) ≤ current.mean ∧
      f = .drop m entry.configuration current.mean recorded.mean
        (FloorCheck.floorOf recorded.mean (p.tolerance m.tolerance)) (p.tolerance m.tolerance) := by
  cases hcurrent : group.stats? m with
  | none => simp [drop?, hcurrent]
  | some current =>
      cases hrecorded : entry.stats.lookup m.field with
      | none => simp [drop?, hrecorded]
      | some recorded =>
          have hfinite := (hentry.finite _ (lookup_mem hrecorded)).mean
          rw [drop?_eq hcurrent hrecorded hfinite]
          constructor
          · intro h
            simp only [Option.ite_none_right_eq_some, Option.some.injEq] at h
            exact ⟨current, recorded, rfl, rfl, h.1.1, h.1.2, h.2.symm⟩
          · rintro ⟨_, _, hcurrent', hrecorded', hpositive, hbelow, rfl⟩
            cases hcurrent'
            cases hrecorded'
            exact if_pos ⟨hpositive, hbelow⟩

/-- A mean that has dropped under a looser policy has dropped under the stricter one. -/
theorem drop?_looser (hp : p.fault? = none) (hp' : p'.fault? = none) (h : p.Looser p')
    (hentry : entry.Complete w) {f' : Finding} (hdrop : drop? p' group entry m = some f') :
    ∃ f, drop? p group entry m = some f ∧ f.complaint = f'.complaint := by
  obtain ⟨current, recorded, hcurrent, hrecorded, hpositive, hbelow, rfl⟩ :=
    (drop?_eq_some_iff hentry).1 hdrop
  have hfinite := (hentry.finite _ (lookup_mem hrecorded)).mean
  have hfloor := FloorCheck.floorOf_anti hfinite hpositive
    (Policy.isPercentage_tolerance hp m.tolerance)
    (Policy.isPercentage_tolerance hp' m.tolerance) (h.tolerance m.tolerance)
  have hstill : ¬ FloorCheck.floorOf recorded.mean (p.tolerance m.tolerance) ≤ current.mean :=
    fun hle => hbelow (Binary64.le_trans hfloor hle)
  have hfound := (drop?_eq_some_iff (p := p) hentry).2
    ⟨current, recorded, hcurrent, hrecorded, hpositive, hstill, rfl⟩
  refine ⟨_, hfound, ?_⟩
  simp only [Finding.complaint]

theorem compare_looser (hp : p.fault? = none) (hp' : p'.fault? = none) (h : p.Looser p')
    {b : Baseline} (hb : ∀ entry ∈ b.entries, entry.Complete w) :
    (complaints (g.compare p' b)).Sublist (complaints (g.compare p b)) := by
  apply complaints_flatMap_sublist
  intro entry hentry
  unfold compareEntry
  cases g.get? entry.configuration with
  | none => exact .refl _
  | some group =>
      apply complaints_filterMap_sublist
      intro m _ f' hdrop
      exact drop?_looser hp hp' h (hb entry hentry) hdrop

/-! ## Noise -/

theorem noise?_looser (h : p.Looser p') {f' : Finding} (hnoise : group.noise? p' m = some f') :
    ∃ f, group.noise? p m = some f ∧ f.complaint = f'.complaint := by
  simp only [Group.noise?, Option.bind_eq_bind, Option.bind_eq_some_iff,
    Option.ite_none_right_eq_some, Option.some.injEq] at hnoise ⊢
  obtain ⟨s, hs, variation, hvariation, hlimit, rfl⟩ := hnoise
  exact ⟨_, ⟨s, hs, variation, hvariation, Binary64.lt_of_le_of_lt h.noise hlimit, rfl⟩, rfl⟩

theorem noise_looser (h : p.Looser p') :
    (complaints (g.noise p')).Sublist (complaints (g.noise p)) := by
  apply complaints_flatMap_sublist
  intro group _
  unfold Group.noise
  by_cases hfew : group.trials < p'.minTrials
  · -- a group that the looser policy exempts
    rw [if_pos hfew]
    exact List.nil_sublist _
  · have htrials := h.trials
    rw [if_neg hfew, if_neg (by omega)]
    exact complaints_filterMap_sublist fun m _ f' hnoise => noise?_looser h hnoise

/-! ## Drops are real -/

/-- The mean of a metric has dropped below a floor that is not above the recorded mean, which is
positive. -/
structure HasDropped (g : Grouping) (b : Baseline) (m : Metric) (c : Configuration)
    (current recorded floor : Binary64) : Prop where
  current_mean : g.mean? c m = some current
  recorded_mean : ∃ entry ∈ b.entries, entry.configuration = c ∧ entry.mean m = recorded
  positive : .zero false < recorded
  below : current < floor
  floor_le : floor ≤ recorded

/-- A mean that reaches the recorded one has not dropped. -/
theorem HasDropped.not_le {b : Baseline} {c : Configuration} {current recorded floor : Binary64}
    (h : g.HasDropped b m c current recorded floor) : ¬ recorded ≤ current :=
  fun hreached => Binary64.not_le_of_lt h.below (Binary64.le_trans h.floor_le hreached)

/-- A drop is found of means that have dropped only. -/
theorem hasDropped_of_mem_compare {rs : List Record} (hg : g.Summarizes w rs)
    (hrs : ∀ r ∈ rs, r.Finite) (hlen : rs.length < UInt64.size) (hp : p.fault? = none)
    {b : Baseline} (hb : ∀ entry ∈ b.entries, entry.Complete w) {c : Configuration}
    {current recorded floor tolerance : Binary64}
    (h : .drop m c current recorded floor tolerance ∈ g.compare p b) :
    g.HasDropped b m c current recorded floor := by
  obtain ⟨entry, hentry, hmem⟩ := List.mem_flatMap.1 h
  unfold compareEntry at hmem
  rw [hg.get?_eq, hg.workload] at hmem
  by_cases hrows : Rows.ofConfiguration w rs entry.configuration = []
  · rw [if_pos hrows] at hmem
    cases List.mem_singleton.1 hmem
  · rw [if_neg hrows] at hmem
    obtain ⟨n, hn, hdrop⟩ := List.mem_filterMap.1 hmem
    obtain ⟨s, t, hs, ht, hpositive, hbelow, heq⟩ := (drop?_eq_some_iff (hb entry hentry)).1 hdrop
    injection heq with hmetric hconfiguration hcurrent hrecorded hfloor _
    subst hmetric hconfiguration hcurrent hrecorded hfloor
    have hfinite := ((hb entry hentry).finite _ (lookup_mem ht)).mean
    have htolerance := Policy.isPercentage_tolerance hp m.tolerance
    have hfloor := ne_nan_of_place? (FloorCheck.place?_floorOf hfinite htolerance)
    rw [Rows.stats?_group hn] at hs
    cases hs
    have hnumber := (Rows.stats_defined (w := w) hrs hlen entry.configuration m).mean
    refine ⟨hg.mean?_eq hn hrows, ⟨entry, hentry, rfl, ?_⟩, hpositive,
      (le_or_lt hfloor hnumber).resolve_left hbelow,
      FloorCheck.floorOf_le_recorded hfinite hpositive htolerance⟩
    rw [BaselineEntry.mean, ht]
    rfl

theorem drop_notMem_noise {c : Configuration} {current recorded floor tolerance : Binary64} :
    .drop m c current recorded floor tolerance ∉ g.noise p := by
  intro hmem
  obtain ⟨group, _, hnoise⟩ := List.mem_flatMap.1 hmem
  obtain ⟨_, _, _, hfound⟩ := exists_noise_of_mem_noise hnoise
  cases hfound

end Grouping

namespace Assessment

open Grouping (ofRecords sampled throughputTrials finite_throughputTrials)

variable {first second : Grouping} {b : Baselines} {p p' : Policy}

/-- What is found in two groupings. -/
def found (first second : Grouping) (b : Baselines) (p : Policy) : List Finding :=
  first.compare p (b.of first.workload) ++ second.compare p (b.of second.workload) ++
    first.noise p ++ second.noise p

/-- A policy that makes sense judges any two groupings. -/
theorem exists_make (first second : Grouping) (b : Baselines) (hp : p.fault? = none) :
    ∃ a, make first second b p = .ok a ∧ a.findings = found first second b p := by
  unfold make
  rw [hp]
  exact ⟨_, rfl, rfl⟩

section Found

variable (hb : ∀ v, ∀ entry ∈ (b.of v).entries, entry.Complete v)

include hb

theorem found_looser (hp : p.fault? = none) (hp' : p'.fault? = none) (h : p.Looser p') :
    (complaints (found first second b p')).Sublist (complaints (found first second b p)) := by
  unfold found
  simp only [complaints_append]
  have hfirst := Grouping.compare_looser (g := first) hp hp' h (hb first.workload)
  have hsecond := Grouping.compare_looser (g := second) hp hp' h (hb second.workload)
  exact ((hfirst.append hsecond).append (Grouping.noise_looser h)).append (Grouping.noise_looser h)

/-- Every drop that is found is one in one of the groupings. -/
theorem exists_hasDropped {w w' : Workload} {rs rs' : List Record}
    (hfirst : first.Summarizes w rs) (hsecond : second.Summarizes w' rs')
    (hrs : ∀ r ∈ rs, r.Finite) (hrs' : ∀ r ∈ rs', r.Finite)
    (hlen : rs.length < UInt64.size) (hlen' : rs'.length < UInt64.size) (hp : p.fault? = none)
    {m : Metric} {c : Configuration} {current recorded floor tolerance : Binary64}
    (hmem : .drop m c current recorded floor tolerance ∈ found first second b p) :
    ∃ g ∈ [first, second], g.HasDropped (b.of g.workload) m c current recorded floor := by
  simp only [found, List.mem_append, Grouping.drop_notMem_noise, or_false, hfirst.workload,
    hsecond.workload] at hmem
  rcases hmem with hdrop | hdrop
  · have hdropped := Grouping.hasDropped_of_mem_compare hfirst hrs hlen hp (hb w) hdrop
    rw [← hfirst.workload] at hdropped
    exact ⟨first, by simp, hdropped⟩
  · have hdropped := Grouping.hasDropped_of_mem_compare hsecond hrs' hlen' hp (hb w') hdrop
    rw [← hsecond.workload] at hdropped
    exact ⟨second, by simp, hdropped⟩

end Found

/-- No complaints, no findings. -/
theorem status_of_sublist {a a' : Assessment}
    (h : (complaints a'.findings).Sublist (complaints a.findings)) (hstatus : a.status = 0) :
    a'.status = 0 := by
  have hnone : a.findings = [] := by
    by_contra hsome
    rw [status_eq, if_neg hsome] at hstatus
    cases hstatus
  rw [hnone] at h
  rw [status_eq, if_pos (List.map_eq_nil_iff.1 (List.sublist_nil.1 h))]

/-- Loosening the gate removes complaints and adds none. Two policies that make sense, of which the
second demands no more than the first, judge any two groupings alike but for what the second leaves
out: its complaints are among those of the first, in the same order and as often, and what passes
the first passes the second. And under either policy a drop is a mean below a floor that is not
above the recorded mean, which is positive; so no mean that reaches its recorded one is held to have
dropped. -/
theorem judged_looser {w w' : Workload} {rs rs' : List Record}
    (hfirst : ofRecords w rs = .ok first) (hsecond : ofRecords w' rs' = .ok second)
    (hrs : ∀ r ∈ rs, r.Finite) (hrs' : ∀ r ∈ rs', r.Finite)
    (hlen : rs.length < UInt64.size) (hlen' : rs'.length < UInt64.size)
    (hb : ∀ v, ∃ path text, Baseline.parse v path text = .ok (b.of v))
    (hp : p.fault? = none) (hp' : p'.fault? = none) (h : p.Looser p') :
    ∃ a a', make first second b p = .ok a ∧ make first second b p' = .ok a' ∧
      (complaints a'.findings).Sublist (complaints a.findings) ∧
      (a.status = 0 → a'.status = 0) ∧
      ∀ m c current recorded floor tolerance,
        .drop m c current recorded floor tolerance ∈ a.findings ++ a'.findings →
        (∃ g ∈ [first, second], g.HasDropped (b.of g.workload) m c current recorded floor) ∧
        ¬ recorded ≤ current := by
  have hfirst := Grouping.ofRecords_summarizes hfirst
  have hsecond := Grouping.ofRecords_summarizes hsecond
  have hcomplete : ∀ v, ∀ entry ∈ (b.of v).entries, entry.Complete v := by
    intro v
    obtain ⟨path, text, hparse⟩ := hb v
    exact Baseline.parse_complete hparse
  obtain ⟨a, ha, hfound⟩ := exists_make first second b hp
  obtain ⟨a', ha', hfound'⟩ := exists_make first second b hp'
  have hsublist : (complaints a'.findings).Sublist (complaints a.findings) := by
    rw [hfound, hfound']
    exact found_looser hcomplete hp hp' h
  refine ⟨a, a', ha, ha', hsublist, status_of_sublist hsublist, ?_⟩
  intro m c current recorded floor tolerance hmem
  have hdropped : ∃ g ∈ [first, second],
      g.HasDropped (b.of g.workload) m c current recorded floor := by
    rw [hfound, hfound', List.mem_append] at hmem
    rcases hmem with hmem | hmem
    · exact exists_hasDropped hcomplete hfirst hsecond hrs hrs' hlen hlen' hp hmem
    · exact exists_hasDropped hcomplete hfirst hsecond hrs hrs' hlen hlen' hp' hmem
  obtain ⟨g, hg, hbelow⟩ := hdropped
  exact ⟨⟨g, hg, hbelow⟩, hbelow.not_le⟩

/-- A document that records a throughput of a hundred. -/
def recordedHundred : String :=
  "\x7b\"[\\\"a\\\", 256, 16, 10]\": \x7b\"queries_per_sec\": [100], " ++
    "\"eff_gb_per_sec\": [2]\x7d\x7d"

/-- The demands on a quiet machine. -/
def strictPolicy : Policy := .forRunner "linux" (.ofNat 10) (.ofNat 10)

/-- The demands on a noisy one, where drops of a quarter are accepted. -/
def loosePolicy : Policy := .forRunner "windows" (.ofNat 25) (.ofNat 25)

/-- Trials with a mean of eighty that are a fifth of it apart. -/
def spreadThroughputs : List Binary64 := [.ofNat 60, .ofNat 80, .ofNat 100]

theorem strictPolicy_looser : strictPolicy.Looser loosePolicy where
  throughput := by decide +kernel
  bandwidth := by decide +kernel
  noise := by decide +kernel
  trials := by decide

theorem spreadThroughputs_judged : ∃ first second b a a',
    make first second b strictPolicy = .ok a ∧ make first second b loosePolicy = .ok a' ∧
    complaints a.findings = [.drop .queries sampled, .noise .queries sampled] ∧
    (complaints a'.findings).Sublist (complaints a.findings) := by
  have hread : ((Baseline.parse .am "am.json" recordedHundred).toOption.bind fun am =>
      (Baseline.parse .cluster "cluster.json" "\x7b\x7d").toOption.bind fun cluster =>
        (ofRecords .am (throughputTrials spreadThroughputs)).toOption.bind fun first =>
          (ofRecords .cluster []).toOption.bind fun second =>
            (make first second ⟨am, cluster⟩ strictPolicy).toOption.map fun a =>
              complaints a.findings) =
      some [.drop .queries sampled, .noise .queries sampled] := by
    decide +kernel
  simp only [Option.bind_eq_some_iff, Option.map_eq_some_iff, toOption_eq_some_iff] at hread
  obtain ⟨am, ham, cluster, hcluster, first, hfirst, second, hsecond, a, ha, hfound⟩ := hread
  have hb : ∀ v, ∃ path text, Baseline.parse v path text = .ok (Baselines.of ⟨am, cluster⟩ v) := by
    intro v
    cases v with
    | am => exact ⟨_, _, ham⟩
    | cluster => exact ⟨_, _, hcluster⟩
  have hrs : ∀ r ∈ throughputTrials spreadThroughputs, r.Finite :=
    finite_throughputTrials (by decide +kernel)
  have hp : strictPolicy.fault? = none := Option.isNone_iff_eq_none.1 (by decide +kernel)
  have hp' : loosePolicy.fault? = none := Option.isNone_iff_eq_none.1 (by decide +kernel)
  obtain ⟨a₁, a', ha₁, ha', hsublist, -⟩ := judged_looser hfirst hsecond hrs (by simp) (by decide)
    (by decide) hb hp hp' strictPolicy_looser
  obtain rfl := Except.ok.inj (ha₁.symm.trans ha)
  exact ⟨first, second, _, a₁, a', ha₁, ha', hfound, hsublist⟩

end Assessment

end PerfGate
