import PerfGate.Proofs.Assessment.Locality
import PerfGate.Proofs.Assessment.Rows
import PerfGate.Proofs.Grouping.Order

/-!
# Assessment — the order of the rows

Rows in another order are judged as well, and the same configurations are missing. Means and deviations
are sums of doubles. Where these do not depend on the order of their terms (`Rows.Steady`), the
summaries are the same to the bit and the findings are the same (`judge_reordered`). Elsewhere a mean is
a few roundings apart in another order: a floor that is further away decides alike
(`Rows.Decided`), and at a floor in between the verdict depends on the order (`tenths_reordered`).
-/

namespace PerfGate

/-! ## Missing configurations and drops -/

namespace Grouping

variable {g : Grouping} {p : Policy} {w : Workload} {c : Configuration} {m : Metric}

theorem missing_mem_compareEntry_iff {entry : BaselineEntry} :
    .missing w c ∈ g.compareEntry p entry ↔
      g.workload = w ∧ entry.configuration = c ∧ g.get? c = none := by
  unfold compareEntry
  cases hget : g.get? entry.configuration with
  | none =>
      simp only [List.mem_singleton, Finding.missing.injEq]
      constructor
      · rintro ⟨rfl, rfl⟩
        exact ⟨rfl, rfl, hget⟩
      · rintro ⟨rfl, rfl, -⟩
        exact ⟨rfl, rfl⟩
  | some group =>
      apply iff_of_false
      · intro hmem
        obtain ⟨_, -, hm⟩ := List.mem_filterMap.1 hmem
        obtain ⟨_, _, _, _, hdrop⟩ := exists_drop_of_drop? hm
        cases hdrop
      · rintro ⟨-, rfl, hnone⟩
        rw [hnone] at hget
        cases hget

theorem isDrop_mem_compareEntry_iff (hm : m ∈ g.workload.metrics) {entry : BaselineEntry} :
    (∃ f ∈ g.compareEntry p entry, f.isDrop m c) ↔ entry.configuration = c ∧
      ∃ group, g.get? c = some group ∧ (drop? p group entry m).isSome := by
  unfold compareEntry
  cases hget : g.get? entry.configuration with
  | none =>
      apply iff_of_false
      · rintro ⟨f, hf, hdrop⟩
        rw [List.mem_singleton.1 hf] at hdrop
        cases hdrop
      · rintro ⟨rfl, group, hgroup, -⟩
        rw [hgroup] at hget
        cases hget
  | some group =>
      constructor
      · rintro ⟨f, hf, hdrop⟩
        obtain ⟨n, -, hn⟩ := List.mem_filterMap.1 hf
        obtain ⟨_, _, _, _, rfl⟩ := exists_drop_of_drop? hn
        obtain ⟨rfl, rfl⟩ := of_decide_eq_true hdrop
        exact ⟨rfl, group, hget, Option.isSome_iff_exists.2 ⟨_, hn⟩⟩
      · rintro ⟨rfl, group', hgroup', hsome⟩
        obtain rfl := Option.some.inj (hget.symm.trans hgroup')
        obtain ⟨f, hf⟩ := Option.isSome_iff_exists.1 hsome
        refine ⟨f, List.mem_filterMap.2 ⟨m, hm, hf⟩, ?_⟩
        obtain ⟨_, _, _, _, rfl⟩ := exists_drop_of_drop? hf
        exact decide_eq_true ⟨rfl, rfl⟩

/-- The mean of a metric of a configuration, if there is a group of it. -/
def mean? (g : Grouping) (c : Configuration) (m : Metric) : Option Binary64 :=
  ((g.get? c).bind (·.stats? m)).map (·.mean)

theorem Summarizes.mean?_eq {rs : List Record} (hg : g.Summarizes w rs) (hm : m ∈ w.metrics)
    (hc : Rows.ofConfiguration w rs c ≠ []) : g.mean? c m = some (Rows.mean w rs c m) := by
  rw [mean?, hg.get?_eq, if_neg hc, Option.bind_some, Rows.stats?_group hm]
  rfl

/-- Two groups have dropped alike if their means compare alike with the floor. -/
theorem isSome_drop?_congr {group group' : Group} {entry : BaselineEntry} {current current' : Stats}
    (hcurrent : group.stats? m = some current) (hcurrent' : group'.stats? m = some current')
    (h : ∀ recorded, entry.stats.lookup m.field = some recorded →
      (FloorCheck.floorOf recorded.mean (p.tolerance m.tolerance) ≤ current.mean ↔
        FloorCheck.floorOf recorded.mean (p.tolerance m.tolerance) ≤ current'.mean)) :
    (drop? p group entry m).isSome = (drop? p group' entry m).isSome := by
  unfold drop?
  rw [hcurrent, hcurrent']
  cases hrecorded : entry.stats.lookup m.field with
  | none => rfl
  | some recorded =>
      simp only [FloorCheck.make]
      by_cases hpositive : recorded.mean ≤ .zero false
      · simp only [if_pos hpositive]
      · simp only [if_neg hpositive, h recorded hrecorded]
        cases decide (FloorCheck.floorOf recorded.mean (p.tolerance m.tolerance) ≤ current'.mean) with
        | false => rfl
        | true => rfl

end Grouping

/-! ## Rows in any order -/

namespace Rows

variable {w : Workload} {rs rs' : List Record} {c : Configuration} {p : Policy}
  {entry : BaselineEntry} {m : Metric}

/-- The rows of a configuration can be summed up in any order. -/
def Steady (w : Workload) (rs : List Record) (c : Configuration) : Prop :=
  ∀ m ∈ w.metrics, Stats.Steady (values w rs c m)

theorem steady_of_length (hrs : ∀ r ∈ rs, r.IsTrial w) (h : (ofConfiguration w rs c).length ≤ 2) :
    Steady w rs c := by
  intro m hm
  apply Stats.steady_of_length
  rwa [values_length hrs c hm]

theorem group_eq_of_perm (hc : Steady w rs c) (h : rs.Perm rs') : group w rs c = group w rs' c := by
  have hstats : ∀ m ∈ w.metrics,
      Stats.ofList (values w rs c m) = Stats.ofList (values w rs' c m) :=
    fun m hm => Stats.ofList_eq_of_perm (hc m hm) (values_perm h c m)
  unfold group
  rw [(ofConfiguration_perm h c).length_eq,
    List.map_congr_left fun m hm => congrArg (Prod.mk m) (hstats m hm)]

theorem sameGroups_of_perm (hc : ∀ c, Steady w rs c) (h : rs.Perm rs') : SameGroups w rs rs' :=
  ⟨configurations_perm h, fun c => group_eq_of_perm (hc c) h⟩

/-- The floor of a metric is out of the reach of rounding: the exact mean is so far above it or below
it that no order of the rows has a mean on the other side. -/
structure Decided (w : Workload) (rs : List Record) (p : Policy) (entry : BaselineEntry) (m : Metric) :
    Prop where
  moderate : Stats.Moderate (values w rs entry.configuration m)
  apart : ∀ recorded ∈ entry.stats.lookup m.field,
    Binary64.Apart ((values w rs entry.configuration m).length + 1)
      (Stats.exactMean (values w rs entry.configuration m))
      (FloorCheck.floorOf recorded.mean (p.tolerance m.tolerance))

instance (w : Workload) (rs : List Record) (p : Policy) (entry : BaselineEntry) (m : Metric) :
    Decidable (Decided w rs p entry m) :=
  decidable_of_iff (Stats.Moderate _ ∧ ∀ recorded ∈ entry.stats.lookup m.field, Binary64.Apart _ _ _)
    ⟨fun ⟨hmoderate, hapart⟩ => ⟨hmoderate, hapart⟩, fun h => ⟨h.moderate, h.apart⟩⟩

/-- A drop below a floor that is out of the reach of rounding is found in every order. -/
theorem isSome_drop?_of_perm (hm : m ∈ w.metrics) (hrs : ∀ r ∈ rs, r.IsTrial w)
    (hc : ofConfiguration w rs entry.configuration ≠ [])
    (hdecided : Decided w rs p entry m) (h : rs.Perm rs') :
    (Grouping.drop? p (group w rs entry.configuration) entry m).isSome =
      (Grouping.drop? p (group w rs' entry.configuration) entry m).isSome := by
  have hne : values w rs entry.configuration m ≠ [] := by
    rw [← List.length_pos_iff, values_length hrs _ hm, List.length_pos_iff]
    exact hc
  apply Grouping.isSome_drop?_congr (stats?_group hm) (stats?_group hm)
  intro recorded hrecorded
  exact Stats.le_meanOf_iff_of_perm hne hdecided.moderate (hdecided.apart recorded hrecorded)
    (values_perm h _ m)

end Rows

/-! ## Findings -/

theorem Assessment.status_eq (a : Assessment) : a.status = if a.findings = [] then 0 else 2 := by
  unfold status passes
  simp only [List.isEmpty_iff]

namespace Evidence

variable {e e' : Evidence} {p : Policy} {a : Assessment} {w : Workload} {c : Configuration}

/-- What is found about a configuration and is no noise is found at one of its entries. -/
theorem mem_findings_iff (h : e.judge p = .ok a) (w : Workload) (c : Configuration) :
    ∃ g, Grouping.Summarizes w (e.rows w) g ∧ ∀ f : Finding, f.subject = (w, c) →
      (∀ m variation limit, f ≠ .noise m c variation limit) →
      (f ∈ a.findings ↔ ∃ entry ∈ (e.baselines.of w).entries,
        entry.configuration = c ∧ f ∈ g.compareEntry p entry) := by
  obtain ⟨g, hg, habout⟩ := about_eq h w c
  refine ⟨g, hg, fun f hsubject hnot => ?_⟩
  have hmem : f ∈ a.findings ↔ f ∈ a.about w c := by
    rw [Assessment.about, List.mem_filter]
    exact (and_iff_left (decide_eq_true hsubject)).symm
  have hnoise : f ∉ (g.get? c).toList.flatMap fun group => group.noise p w.metrics := by
    intro hnoise
    obtain ⟨group, hgroup, hf⟩ := List.mem_flatMap.1 hnoise
    obtain ⟨m, -, variation, rfl⟩ := Grouping.exists_noise_of_mem_noise hf
    exact hnot m variation p.noiseLimit (by rw [(Prod.mk.inj hsubject).2])
  rw [hmem, habout, List.mem_append, or_iff_left hnoise, List.mem_flatMap]
  simp only [List.mem_filter, decide_eq_true_eq, and_assoc]

/-- A configuration is missing if it is recorded and has no rows. -/
theorem missing_mem_findings_iff (h : e.judge p = .ok a) :
    .missing w c ∈ a.findings ↔
      (∃ entry ∈ (e.baselines.of w).entries, entry.configuration = c) ∧
        Rows.ofConfiguration w (e.rows w) c = [] := by
  obtain ⟨g, hg, hmem⟩ := mem_findings_iff h w c
  have hnot : ∀ m variation limit, Finding.missing w c ≠ .noise m c variation limit := by simp
  rw [hmem _ rfl hnot, ← hg.get?_eq_none_iff]
  simp only [Grouping.missing_mem_compareEntry_iff, hg.workload, true_and]
  constructor
  · rintro ⟨entry, hentry, hc, -, hget⟩
    exact ⟨⟨entry, hentry, hc⟩, hget⟩
  · rintro ⟨⟨entry, hentry, hc⟩, hget⟩
    exact ⟨entry, hentry, hc, hc, hget⟩

/-- A drop is found if the group of the rows has dropped below one of the recorded means. -/
theorem isDrop_mem_findings_iff (h : e.judge p = .ok a) {m : Metric} (hm : m ∈ w.metrics) :
    (∃ f ∈ a.findings, f.isDrop m c) ↔ ∃ entry ∈ (e.baselines.of w).entries,
      entry.configuration = c ∧ Rows.ofConfiguration w (e.rows w) c ≠ [] ∧
        (Grouping.drop? p (Rows.group w (e.rows w) c) entry m).isSome := by
  obtain ⟨g, hg, hmem⟩ := mem_findings_iff h w c
  have hdrop : ∀ f : Finding, f.isDrop m c → (f ∈ a.findings ↔
      ∃ entry ∈ (e.baselines.of w).entries, entry.configuration = c ∧ f ∈ g.compareEntry p entry) := by
    intro f hf
    cases f with
    | missing _ _ => cases hf
    | noise _ _ _ _ => cases hf
    | drop n d _ _ _ _ =>
        obtain ⟨rfl, rfl⟩ := of_decide_eq_true hf
        exact hmem _ (by rw [Finding.subject, Workload.mem_metrics.1 hm]) (by simp)
  have hgroup : ∀ entry : BaselineEntry, (∃ group, g.get? c = some group ∧
      (Grouping.drop? p group entry m).isSome) ↔ Rows.ofConfiguration w (e.rows w) c ≠ [] ∧
        (Grouping.drop? p (Rows.group w (e.rows w) c) entry m).isSome := by
    intro entry
    rw [hg.get?_eq]
    by_cases hc : Rows.ofConfiguration w (e.rows w) c = []
    · simp [hc]
    · simp [hc]
  constructor
  · rintro ⟨f, hf, hfdrop⟩
    obtain ⟨entry, hentry, hc, hfentry⟩ := (hdrop f hfdrop).1 hf
    have hfound := (Grouping.isDrop_mem_compareEntry_iff (by rwa [hg.workload])).1 ⟨f, hfentry, hfdrop⟩
    exact ⟨entry, hentry, hc, (hgroup entry).1 hfound.2⟩
  · rintro ⟨entry, hentry, hc, hfound⟩
    obtain ⟨f, hfentry, hfdrop⟩ := (Grouping.isDrop_mem_compareEntry_iff (by rwa [hg.workload])).2
      ⟨hc, (hgroup entry).2 hfound⟩
    exact ⟨f, (hdrop f hfdrop).2 ⟨entry, hentry, hc, hfentry⟩, hfdrop⟩

/-- The findings are those of the rows where the baselines record every metric. -/
theorem findings_eq (h : e.judge p = .ok a)
    (ham : ∀ entry ∈ e.baselines.am.entries, entry.Complete .am)
    (hcluster : ∀ entry ∈ e.baselines.cluster.entries, entry.Complete .cluster) :
    a.findings = Rows.findings e.am e.cluster e.baselines p := by
  obtain ⟨-, first, second, hfirst, hsecond, rfl⟩ := judge_eq_ok_iff.1 h
  have hfirst := Grouping.ofRecords_summarizes hfirst
  have hsecond := Grouping.ofRecords_summarizes hsecond
  show first.compare p _ ++ second.compare p _ ++ first.noise p ++ second.noise p = _
  rw [Rows.compare_eq hfirst p ham, Rows.compare_eq hsecond p hcluster, Rows.noise_eq hfirst p,
    Rows.noise_eq hsecond p]
  rfl

/-! ## Another order -/

/-- The same rows in another order, held against the same baselines. -/
structure Reordered (e e' : Evidence) : Prop where
  rows : ∀ w, (e.rows w).Perm (e'.rows w)
  baselines : e.baselines = e'.baselines

namespace Reordered

variable {a' : Assessment}

theorem isTrial (horder : e.Reordered e') (h : e.judge p = .ok a) (w : Workload) :
    ∀ r ∈ e'.rows w, r.IsTrial w :=
  fun r hr => isTrial_of_judge h w r ((horder.rows w).mem_iff.2 hr)

theorem ofConfiguration_eq_nil_iff (horder : e.Reordered e') (w : Workload) (c : Configuration) :
    Rows.ofConfiguration w (e.rows w) c = [] ↔ Rows.ofConfiguration w (e'.rows w) c = [] :=
  Rows.ofConfiguration_eq_nil_of_perm (horder.rows w) c

theorem missing_mem_findings_iff (horder : e.Reordered e') (h : e.judge p = .ok a)
    (h' : e'.judge p = .ok a') : .missing w c ∈ a.findings ↔ .missing w c ∈ a'.findings := by
  rw [Evidence.missing_mem_findings_iff h, Evidence.missing_mem_findings_iff h', horder.baselines,
    horder.ofConfiguration_eq_nil_iff]

theorem isDrop_mem_findings_iff (horder : e.Reordered e') (h : e.judge p = .ok a)
    (h' : e'.judge p = .ok a') {m : Metric} (hm : m ∈ w.metrics)
    (hdecided : ∀ entry ∈ (e.baselines.of w).entries, entry.configuration = c →
      Rows.Decided w (e.rows w) p entry m) :
    (∃ f ∈ a.findings, f.isDrop m c) ↔ ∃ f ∈ a'.findings, f.isDrop m c := by
  have hrs := isTrial_of_judge h w
  rw [Evidence.isDrop_mem_findings_iff h hm, Evidence.isDrop_mem_findings_iff h' hm,
    ← horder.baselines]
  apply exists_congr
  intro entry
  constructor
  · rintro ⟨hentry, rfl, hc, hdrop⟩
    have hsame := Rows.isSome_drop?_of_perm hm hrs hc (hdecided entry hentry rfl) (horder.rows w)
    exact ⟨hentry, rfl, mt (horder.ofConfiguration_eq_nil_iff w _).2 hc, hsame ▸ hdrop⟩
  · rintro ⟨hentry, rfl, hc', hdrop⟩
    have hc := mt (horder.ofConfiguration_eq_nil_iff w _).1 hc'
    have hsame := Rows.isSome_drop?_of_perm hm hrs hc (hdecided entry hentry rfl) (horder.rows w)
    exact ⟨hentry, rfl, hc, hsame ▸ hdrop⟩

theorem about_eq_about (horder : e.Reordered e') (h : e.judge p = .ok a)
    (h' : e'.judge p = .ok a') (hc : Rows.Steady w (e.rows w) c) : a.about w c = a'.about w c :=
  Evidence.about_eq_about h h' (horder.ofConfiguration_eq_nil_iff w c)
    (Rows.group_eq_of_perm hc (horder.rows w)) (by rw [horder.baselines])

end Reordered

/-- A configuration that may be judged in another way in another order: sums depend on the order, and
there is noise, or a recorded mean whose floor is in the reach of rounding. -/
def Unsettled (e : Evidence) (p : Policy) (fs : List Finding) (w : Workload) (c : Configuration) :
    Prop :=
  ¬ Rows.Steady w (e.rows w) c ∧ ∃ m ∈ w.metrics,
    (∃ variation limit, .noise m c variation limit ∈ fs) ∨
    ∃ entry ∈ (e.baselines.of w).entries, entry.configuration = c ∧
      ¬ Rows.Decided w (e.rows w) p entry m

theorem Unsettled.mono {fs fs' : List Finding} (h : e.Unsettled p fs w c) (hsub : fs ⊆ fs') :
    e.Unsettled p fs' w c := by
  obtain ⟨hsteady, m, hm, hcause⟩ := h
  refine ⟨hsteady, m, hm, hcause.imp_left ?_⟩
  rintro ⟨variation, limit, hnoise⟩
  exact ⟨variation, limit, hsub hnoise⟩

/-- If one of two judgements finds something and the other nothing, and they agree on all that does
not depend on the order, then what is found is about an unsettled configuration. -/
theorem exists_unsettled {b b' : Assessment}
    (hmissing : ∀ w c, .missing w c ∈ b.findings → .missing w c ∈ b'.findings)
    (hdrop : ∀ w c, ∀ m ∈ w.metrics,
      (∀ entry ∈ (e.baselines.of w).entries, entry.configuration = c →
        Rows.Decided w (e.rows w) p entry m) →
      (∃ f ∈ b.findings, f.isDrop m c) → ∃ f ∈ b'.findings, f.isDrop m c)
    (hsteady : ∀ w c, Rows.Steady w (e.rows w) c → b.about w c = b'.about w c)
    {f : Finding} (hf : f ∈ b.findings) (hnone : b'.findings = []) :
    ∃ w c, e.Unsettled p b.findings w c := by
  refine ⟨f.subject.1, f.subject.2, fun hc => ?_, ?_⟩
  · have hmem : f ∈ b.about f.subject.1 f.subject.2 :=
      List.mem_filter.2 ⟨hf, decide_eq_true rfl⟩
    rw [hsteady _ _ hc, Assessment.about, hnone] at hmem
    cases hmem
  · cases f with
    | missing w c =>
        have hother := hmissing w c hf
        rw [hnone] at hother
        cases hother
    | noise m c variation limit =>
        exact ⟨m, Workload.mem_metrics.2 rfl, .inl ⟨variation, limit, hf⟩⟩
    | drop m c =>
        refine ⟨m, Workload.mem_metrics.2 rfl, .inr ?_⟩
        by_contra hall
        have hdecided : ∀ entry ∈ (e.baselines.of m.workload).entries, entry.configuration = c →
            Rows.Decided m.workload (e.rows m.workload) p entry m := by
          intro entry hentry hc
          by_contra hnot
          exact hall ⟨entry, hentry, hc, hnot⟩
        obtain ⟨f, hother, -⟩ := hdrop m.workload c m (Workload.mem_metrics.2 rfl) hdecided
          ⟨_, hf, decide_eq_true ⟨rfl, rfl⟩⟩
        rw [hnone] at hother
        cases hother

/-! ### Trials of one configuration -/

/-- A trial that measures so many tenths. -/
def tenthsRow (n : Nat) : Record :=
  let spelled := Record.spelling .am 1 ⟨"a", 256, 16, 10⟩ [0, 2]
  { spelled with members := spelled.members.set "queries_per_sec" (.real (.ofRatio false n 10)) }

/-- Trials of one configuration, held against a baseline. -/
def tenths (trials : List Nat) (b : Baseline) : Evidence where
  am := trials.map tenthsRow
  cluster := []
  baselines := ⟨b, .empty⟩

theorem configuration?_tenthsRow (n : Nat) :
    (tenthsRow n).configuration? .am = some ⟨"a", 256, 16, 10⟩ := rfl

theorem isTrial_tenthsRow (n : Nat) : (tenthsRow n).IsTrial .am := by
  refine ⟨rfl, fun m hm => ?_⟩
  rcases List.mem_pair.1 hm with rfl | rfl
  · rfl
  · rfl

theorem isTrial_of_mem_tenths (trials : List Nat) (b : Baseline) :
    ∀ w, ∀ r ∈ (tenths trials b).rows w, r.IsTrial w
  | .am => List.forall_mem_map.2 fun n _ => isTrial_tenthsRow n
  | .cluster => fun _ hr => absurd hr List.not_mem_nil

theorem exists_judge_tenths (trials : List Nat) (b : Baseline) :
    ∃ a, (tenths trials b).judge .standard = .ok a :=
  exists_judge_of_isTrial (Option.isNone_iff_eq_none.1 (by decide +kernel))
    (isTrial_of_mem_tenths trials b)

theorem reordered_tenths {trials trials' : List Nat} (h : trials.Perm trials') (b : Baseline) :
    (tenths trials b).Reordered (tenths trials' b) := by
  refine ⟨fun w => ?_, rfl⟩
  cases w with
  | am => exact h.map tenthsRow
  | cluster => exact .refl []

theorem findings_tenths {trials : List Nat} {text : String} {b : Baseline}
    (hb : Baseline.parse .am "am_bench.json" text = .ok b)
    (h : (tenths trials b).judge .standard = .ok a) :
    a.findings = Rows.findings (trials.map tenthsRow) [] ⟨b, .empty⟩ .standard :=
  findings_eq h (Baseline.parse_complete hb) fun _ hentry => absurd hentry List.not_mem_nil

/-- A document that records a mean of ninety. -/
def recordedNinety : String :=
  "\x7b\"[\\\"a\\\", 256, 16, 10]\": \x7b\"queries_per_sec\": [90], \"eff_gb_per_sec\": [2]\x7d\x7d"

/-- Whole numbers with a whole mean. -/
def wholeTrials : List Nat := [700, 800, 840]

theorem steady_wholeTrials (c : Configuration) :
    Rows.Steady .am (wholeTrials.map tenthsRow) c := by
  by_cases hc : c = ⟨"a", 256, 16, 10⟩
  · subst hc
    intro m hm
    rcases List.mem_pair.1 hm with rfl | rfl
    · exact ⟨.inr ⟨1074, by decide +kernel⟩, .inr ⟨1074, by decide +kernel⟩⟩
    · exact ⟨.inr ⟨1074, by decide +kernel⟩, .inr ⟨1074, by decide +kernel⟩⟩
  · have hnone : Rows.ofConfiguration .am (wholeTrials.map tenthsRow) c = [] := by
      rw [Rows.ofConfiguration, List.filter_eq_nil_iff]
      intro r hr
      obtain ⟨n, -, rfl⟩ := List.mem_map.1 hr
      rw [configuration?_tenthsRow, decide_eq_true_eq, Option.some.injEq]
      exact Ne.symm hc
    have hfew : (Rows.ofConfiguration .am (wholeTrials.map tenthsRow) c).length ≤ 2 := by
      rw [hnone]
      exact Nat.zero_le 2
    exact Rows.steady_of_length (List.forall_mem_map.2 fun n _ => isTrial_tenthsRow n) hfew

/-- Rows in another order are judged as well, and the same configurations are missing. A drop is found
in both orders or in none if its floor is out of the reach of rounding. A configuration with sums that
do not depend on the order has the same summaries, to the bit, and the same findings; if all are so,
the same is found. So only an unsettled configuration can change the exit status. -/
theorem judge_reordered (h : e.judge p = .ok a) (horder : e.Reordered e') :
    ∃ a', e'.judge p = .ok a' ∧
      (∀ w c, .missing w c ∈ a.findings ↔ .missing w c ∈ a'.findings) ∧
      (∀ w c, ∀ m ∈ w.metrics,
        (∀ entry ∈ (e.baselines.of w).entries, entry.configuration = c →
          Rows.Decided w (e.rows w) p entry m) →
        ((∃ f ∈ a.findings, f.isDrop m c) ↔ ∃ f ∈ a'.findings, f.isDrop m c)) ∧
      (∀ w c, Rows.Steady w (e.rows w) c → a.about w c = a'.about w c ∧
        ∀ g g', Grouping.ofRecords w (e.rows w) = .ok g →
          Grouping.ofRecords w (e'.rows w) = .ok g' → g.get? c = g'.get? c) ∧
      ((∀ w c, Rows.Steady w (e.rows w) c) → a.findings.Perm a'.findings) ∧
      (a.status ≠ a'.status → ∃ w c, e.Unsettled p (a.findings ++ a'.findings) w c) := by
  obtain ⟨a', h'⟩ := exists_judge_of_isTrial (judge_eq_ok_iff.1 h).1 (horder.isTrial h)
  have hmissing := fun w c => horder.missing_mem_findings_iff h h' (w := w) (c := c)
  have hdrop := fun w c m hm => horder.isDrop_mem_findings_iff h h' (w := w) (c := c) (m := m) hm
  have habout := fun w c => horder.about_eq_about h h' (w := w) (c := c)
  refine ⟨a', h', hmissing, hdrop, fun w c hc => ⟨habout w c hc, fun g g' hg hg' => ?_⟩,
    fun hsteady => ?_, fun hstatus => ?_⟩
  · exact (Grouping.ofRecords_summarizes hg).get?_eq_get? (Grouping.ofRecords_summarizes hg')
      (horder.ofConfiguration_eq_nil_iff w c) (Rows.group_eq_of_perm hc (horder.rows w))
  · exact findings_perm_of_sameGroups h h'
      (fun w => Rows.sameGroups_of_perm (hsteady w) (horder.rows w))
      (fun w => by rw [horder.baselines])
  · by_cases hnone : a.findings = []
    · have hsome : a'.findings ≠ [] := by
        intro hnone'
        exact hstatus (by rw [Assessment.status_eq, Assessment.status_eq, hnone, hnone'])
      obtain ⟨f, hf⟩ := List.exists_mem_of_ne_nil _ hsome
      obtain ⟨w, c, hunsettled⟩ := exists_unsettled (fun w c => (hmissing w c).2)
        (fun w c m hm hdecided => (hdrop w c m hm hdecided).2) (fun w c hc => (habout w c hc).symm)
        hf hnone
      exact ⟨w, c, hunsettled.mono (List.subset_append_right _ _)⟩
    · have hnone' : a'.findings = [] := by
        by_contra hsome'
        exact hstatus (by rw [Assessment.status_eq, Assessment.status_eq, if_neg hnone, if_neg hsome'])
      obtain ⟨f, hf⟩ := List.exists_mem_of_ne_nil _ hnone
      obtain ⟨w, c, hunsettled⟩ := exists_unsettled (fun w c => (hmissing w c).1)
        (fun w c m hm hdecided => (hdrop w c m hm hdecided).1) habout hf hnone'
      exact ⟨w, c, hunsettled.mono (List.subset_append_left _ _)⟩

theorem wholeTrials_reordered : ∃ b a a',
    Baseline.parse .am "am_bench.json" recordedNinety = .ok b ∧
    (tenths wholeTrials b).judge .standard = .ok a ∧
    (tenths wholeTrials.reverse b).judge .standard = .ok a' ∧
    (∃ f ∈ a'.findings, f.isDrop .queries ⟨"a", 256, 16, 10⟩) ∧
    a.findings.Perm a'.findings := by
  have hfound :
      ((Baseline.parse .am "am_bench.json" recordedNinety).toOption.map fun b =>
        let rows := wholeTrials.map tenthsRow
        (decide (∀ entry ∈ b.entries, Rows.Decided .am rows .standard entry .queries),
          (Rows.findings rows [] ⟨b, .empty⟩ .standard).any
            (Finding.isDrop .queries ⟨"a", 256, 16, 10⟩))) = some (true, true) := by
    decide +kernel
  simp only [Option.map_eq_some_iff, toOption_eq_some_iff, Prod.mk.injEq, decide_eq_true_eq,
    List.any_eq_true] at hfound
  obtain ⟨b, hb, hdecided, hdrop⟩ := hfound
  obtain ⟨a, h⟩ := exists_judge_tenths wholeTrials b
  have horder : (tenths wholeTrials b).Reordered (tenths wholeTrials.reverse b) :=
    reordered_tenths (List.reverse_perm _).symm b
  obtain ⟨a', h', -, hdrops, -, hsame, -⟩ := judge_reordered h horder
  have hsteady : ∀ w c, Rows.Steady w ((tenths wholeTrials b).rows w) c := by
    intro w c
    cases w with
    | am => exact steady_wholeTrials c
    | cluster => exact Rows.steady_of_length (isTrial_of_mem_tenths _ b .cluster) (Nat.zero_le 2)
  refine ⟨b, a, a', hb, h, h', ?_, hsame hsteady⟩
  rw [← hdrops .am ⟨"a", 256, 16, 10⟩ .queries (by decide) fun entry hentry _ => hdecided entry hentry,
    findings_tenths hb h]
  exact hdrop

/-- Three trials with a mean of 81.0, which is the floor. In another order their mean is the double
below it, and the run fails. -/
theorem tenths_reordered : ∃ b,
    Baseline.parse .am "am_bench.json" recordedNinety = .ok b ∧
    (tenths [801, 811, 818] b).Reordered (tenths [801, 818, 811] b) ∧
    (∃ a a', (tenths [801, 811, 818] b).judge .standard = .ok a ∧ a.status = 0 ∧
      (tenths [801, 818, 811] b).judge .standard = .ok a' ∧ a'.status = 2) ∧
    ∃ g g', Grouping.ofRecords .am ([801, 811, 818].map tenthsRow) = .ok g ∧
      Grouping.ofRecords .am ([801, 818, 811].map tenthsRow) = .ok g' ∧
      g.mean? ⟨"a", 256, 16, 10⟩ .queries = some (.ofNat 81) ∧
      g'.mean? ⟨"a", 256, 16, 10⟩ .queries ≠ some (.ofNat 81) := by
  have hfound :
      ((Baseline.parse .am "am_bench.json" recordedNinety).toOption.map fun b =>
        let findings (trials : List Nat) : List Finding :=
          Rows.findings (trials.map tenthsRow) [] ⟨b, .empty⟩ .standard
        ((findings [801, 811, 818]).isEmpty, (findings [801, 818, 811]).isEmpty)) =
        some (true, false) := by
    decide +kernel
  simp only [Option.map_eq_some_iff, toOption_eq_some_iff, Prod.mk.injEq] at hfound
  obtain ⟨b, hb, hpass, hfail⟩ := hfound
  obtain ⟨a, h⟩ := exists_judge_tenths [801, 811, 818] b
  obtain ⟨a', h'⟩ := exists_judge_tenths [801, 818, 811] b
  obtain ⟨g, hg⟩ : ∃ g, Grouping.ofRecords .am ([801, 811, 818].map tenthsRow) = .ok g :=
    Grouping.exists_ofRecords_iff.2 (isTrial_of_judge h .am)
  obtain ⟨g', hg'⟩ : ∃ g', Grouping.ofRecords .am ([801, 818, 811].map tenthsRow) = .ok g' :=
    Grouping.exists_ofRecords_iff.2 (isTrial_of_judge h' .am)
  refine ⟨b, hb, reordered_tenths (by decide) b, ⟨a, a', h, ?_, h', ?_⟩, g, g', hg, hg', ?_, ?_⟩
  · rw [Assessment.status, Assessment.passes, findings_tenths hb h, if_pos hpass]
  · rw [Assessment.status, Assessment.passes, findings_tenths hb h', hfail]
    rfl
  · rw [(Grouping.ofRecords_summarizes hg).mean?_eq (by decide) (by decide +kernel)]
    decide +kernel
  · rw [(Grouping.ofRecords_summarizes hg').mean?_eq (by decide) (by decide +kernel)]
    decide +kernel

end Evidence

end PerfGate
