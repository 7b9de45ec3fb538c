import Mathlib.Data.List.Basic
import PerfGate.Assessment
import PerfGate.Proofs.Grouping.Refinement

/-!
# Assessment — each configuration is judged by itself

What is found about a configuration depends on its own rows and its own recorded entries, in their
order, and on nothing else (`about_congr`): other configurations may come and go, fail or pass, and
stand anywhere between. So rows may be interleaved in another way, and entries recorded in another
order, and the same is found (`findings_perm`).
-/

namespace PerfGate

/-! ## The subject of a finding -/

/-- The workload that a metric is tracked in. -/
def Metric.workload : Metric → Workload
  | .queries | .bandwidth => .am
  | .updates | .finalizes => .cluster

theorem Workload.mem_metrics {w : Workload} {m : Metric} : m ∈ w.metrics ↔ m.workload = w := by
  cases w <;> cases m <;> decide

namespace Finding

/-- What a finding is about: a configuration of a workload. -/
def subject : Finding → Workload × Configuration
  | .missing w c => (w, c)
  | .drop m c .. => (m.workload, c)
  | .noise m c .. => (m.workload, c)

/-- The finding that a configuration has no trials. -/
def isMissing (c : Configuration) : Finding → Bool
  | .missing _ d => d = c
  | _ => false

/-- A drop of a metric of a configuration. -/
def isDrop (m : Metric) (c : Configuration) : Finding → Bool
  | .drop n d .. => n = m ∧ d = c
  | _ => false

end Finding

/-- The findings about a configuration of a workload, in order. -/
def Assessment.about (a : Assessment) (w : Workload) (c : Configuration) : List Finding :=
  a.findings.filter (·.subject = (w, c))

/-- Blocks of one tag each: what has a tag is in the blocks with that tag. -/
theorem filter_flatMap_of_tag {α β γ : Type} [DecidableEq γ] {xs : List α} {f : α → List β}
    {key : α → γ} {tag : β → γ} (h : ∀ x ∈ xs, ∀ y ∈ f x, tag y = key x) (k : γ) :
    (xs.flatMap f).filter (tag · = k) = (xs.filter (key · = k)).flatMap f := by
  induction xs with
  | nil => rfl
  | cons x rest ih =>
      rw [List.forall_mem_cons] at h
      rw [List.flatMap_cons, List.filter_append, ih h.2, List.filter_cons]
      by_cases hk : key x = k
      · have hall : (f x).filter (tag · = k) = f x := by
          rw [List.filter_eq_self]
          intro y hy
          rw [h.1 y hy]
          exact decide_eq_true hk
        rw [hall, if_pos (decide_eq_true hk), List.flatMap_cons]
      · have hnone : (f x).filter (tag · = k) = [] := by
          rw [List.filter_eq_nil_iff]
          intro y hy
          rw [h.1 y hy]
          simpa using hk
        rw [hnone, if_neg (by simpa using hk), List.nil_append]

namespace Grouping

/-- What is found about a metric of a recorded configuration is a drop of that metric. -/
theorem exists_drop_of_drop? {p : Policy} {group : Group} {entry : BaselineEntry} {m : Metric}
    {f : Finding} (h : drop? p group entry m = some f) : ∃ current recorded floor tolerance,
      f = .drop m entry.configuration current recorded floor tolerance := by
  unfold drop? at h
  split at h
  · simp only at h
    split at h
    · cases h
      exact ⟨_, _, _, _, rfl⟩
    · cases h
  · cases h

theorem subject_of_mem_compareEntry {g : Grouping} {p : Policy} {entry : BaselineEntry}
    {f : Finding} (h : f ∈ g.compareEntry p entry) :
    f.subject = (g.workload, entry.configuration) := by
  unfold compareEntry at h
  split at h
  · rw [List.mem_singleton] at h
    rw [h]
    rfl
  · obtain ⟨m, hm, hdrop⟩ := List.mem_filterMap.1 h
    obtain ⟨_, _, _, _, rfl⟩ := exists_drop_of_drop? hdrop
    rw [← Workload.mem_metrics.1 hm]
    rfl

/-- What is found in a group that was run often enough is the noise of one of its metrics. -/
theorem exists_noise_of_mem_noise {g : Group} {p : Policy} {ms : List Metric} {f : Finding}
    (h : f ∈ g.noise p ms) : ∃ m ∈ ms, ∃ variation,
      f = .noise m g.configuration variation p.noiseLimit := by
  unfold Group.noise at h
  split at h
  · cases h
  · obtain ⟨m, hm, hnoise⟩ := List.mem_filterMap.1 h
    simp only [Group.noise?, Option.bind_eq_bind, Option.bind_eq_some_iff] at hnoise
    obtain ⟨_, _, variation, _, hlimit⟩ := hnoise
    split at hlimit
    · cases hlimit
      exact ⟨m, hm, variation, rfl⟩
    · cases hlimit

theorem subject_of_mem_noise {g : Group} {p : Policy} {w : Workload} {f : Finding}
    (h : f ∈ g.noise p w.metrics) : f.subject = (w, g.configuration) := by
  obtain ⟨m, hm, _, rfl⟩ := exists_noise_of_mem_noise h
  rw [← Workload.mem_metrics.1 hm]
  rfl

end Grouping

/-! ## One configuration -/

namespace Rows

variable {w : Workload} {rs rs' : List Record} {c : Configuration}

theorem ofConfiguration_eq_nil_congr (h : (ofConfiguration w rs c).map (·.members) =
    (ofConfiguration w rs' c).map (·.members)) :
    ofConfiguration w rs c = [] ↔ ofConfiguration w rs' c = [] := by
  rw [← List.map_eq_nil_iff (f := (·.members)), h, List.map_eq_nil_iff]

/-- The summary of rows is made of their members. -/
theorem group_congr (h : (ofConfiguration w rs c).map (·.members) =
    (ofConfiguration w rs' c).map (·.members)) : group w rs c = group w rs' c := by
  have hlength : (ofConfiguration w rs c).length = (ofConfiguration w rs' c).length := by
    simpa using congrArg List.length h
  have hvalues : ∀ (l : List Record) (m : Metric), l.filterMap (·.value? m) =
      (l.map (·.members)).filterMap fun members => Record.value? m ⟨0, members⟩ := by
    intro l m
    rw [List.filterMap_map]
    rfl
  unfold group values
  simp only [hlength, hvalues, h]

end Rows

namespace Grouping.Summarizes

variable {w : Workload} {rs rs' : List Record} {g g' : Grouping} {c : Configuration}

/-- The index finds the same if there are rows of the configuration in both lists or in none, with
the same summary. -/
theorem get?_eq_get? (hg : g.Summarizes w rs) (hg' : g'.Summarizes w rs')
    (hrows : Rows.ofConfiguration w rs c = [] ↔ Rows.ofConfiguration w rs' c = [])
    (hgroup : Rows.group w rs c = Rows.group w rs' c) : g.get? c = g'.get? c := by
  rw [hg.get?_eq, hg'.get?_eq, hgroup]
  exact if_congr hrows rfl rfl

theorem get?_eq_none_iff (hg : g.Summarizes w rs) :
    g.get? c = none ↔ Rows.ofConfiguration w rs c = [] := by
  rw [hg.get?_eq]
  simp only [ite_eq_left_iff, reduceCtorEq, imp_false, not_not]

theorem compareEntry_congr (hg : g.Summarizes w rs) (hg' : g'.Summarizes w rs')
    {entry : BaselineEntry} (h : g.get? entry.configuration = g'.get? entry.configuration)
    (p : Policy) : g.compareEntry p entry = g'.compareEntry p entry := by
  unfold compareEntry
  rw [h, hg.workload, hg'.workload]

/-- There is at most one group of a configuration, and the index finds it. -/
theorem filter_groups (hg : g.Summarizes w rs) (c : Configuration) :
    g.groups.filter (·.configuration = c) = (g.get? c).toList := by
  have hfilter : g.groups.filter (·.configuration = c) =
      ((Rows.configurations w rs).filter (· = c)).map (Rows.group w rs) := by
    rw [hg.groups, List.filter_map]
    rfl
  have hnodup : (Rows.configurations w rs).Nodup := nodup_eraseDups _
  rw [hfilter, List.filter_eq, hnodup.count, hg.get?_eq]
  simp only [Rows.mem_configurations, ite_not]
  split
  · rfl
  · rfl

/-- The drops of a configuration are found at its own entries. -/
theorem filter_compare (hg : g.Summarizes w rs) (p : Policy) (b : Baseline) (w' : Workload)
    (c : Configuration) :
    (g.compare p b).filter (·.subject = (w', c)) =
      if w = w' then (b.entries.filter (·.configuration = c)).flatMap (g.compareEntry p)
      else [] := by
  unfold compare
  rw [filter_flatMap_of_tag fun entry _ f => subject_of_mem_compareEntry, hg.workload]
  split
  · rename_i hw
    simp only [Prod.mk.injEq, hw, true_and]
  · rename_i hw
    simp only [Prod.mk.injEq, hw, false_and, decide_false, List.filter_false, List.flatMap_nil]

/-- The noise of a configuration is that of its own group. -/
theorem filter_noise (hg : g.Summarizes w rs) (p : Policy) (w' : Workload) (c : Configuration) :
    (g.noise p).filter (·.subject = (w', c)) =
      if w = w' then (g.get? c).toList.flatMap fun group => group.noise p w.metrics else [] := by
  unfold noise
  rw [hg.workload, filter_flatMap_of_tag fun group _ f => subject_of_mem_noise]
  split
  · rename_i hw
    simp only [Prod.mk.injEq, hw, true_and, ← hg.filter_groups]
  · rename_i hw
    simp only [Prod.mk.injEq, hw, false_and, decide_false, List.filter_false, List.flatMap_nil]

end Grouping.Summarizes

/-! ## Other orders of the rows -/

/-- Rows with the same configurations, in whatever order, and the same summary of each. -/
structure Rows.SameGroups (w : Workload) (rs rs' : List Record) : Prop where
  configurations : (configurations w rs).Perm (configurations w rs')
  group : ∀ c, group w rs c = group w rs' c

theorem Rows.SameGroups.ofConfiguration_eq_nil_iff {w : Workload} {rs rs' : List Record}
    (h : SameGroups w rs rs') (c : Configuration) :
    ofConfiguration w rs c = [] ↔ ofConfiguration w rs' c = [] := by
  have hmem := h.configurations.mem_iff (a := c)
  rw [mem_configurations, mem_configurations] at hmem
  exact not_iff_not.1 hmem

/-- The same rows in another order that keeps the order within each configuration. Rows are the same
if they have the same members. -/
structure Rows.Interleaved (w : Workload) (rs rs' : List Record) : Prop where
  perm : (rs.map (·.members)).Perm (rs'.map (·.members))
  order : ∀ c, (Rows.ofConfiguration w rs c).map (·.members) =
    (Rows.ofConfiguration w rs' c).map (·.members)

namespace Rows.Interleaved

variable {w : Workload} {rs rs' : List Record}

theorem refl (w : Workload) (rs : List Record) : Interleaved w rs rs :=
  ⟨List.Perm.refl _, fun _ => rfl⟩

/-- Neighbours of different configurations may change places. -/
theorem swap {r s : Record} (h : r.configuration? w ≠ s.configuration? w)
    (before after : List Record) :
    Interleaved w (before ++ r :: s :: after) (before ++ s :: r :: after) := by
  constructor
  · simp only [List.map_append, List.map_cons]
    exact (List.Perm.swap _ _ _).append_left _
  · intro c
    unfold ofConfiguration
    simp only [List.filter_append, List.filter_cons, decide_eq_true_eq]
    by_cases hr : r.configuration? w = some c
    · have hs : s.configuration? w ≠ some c := fun hs => h (hr.trans hs.symm)
      rw [if_pos hr, if_neg hs, if_neg hs, if_pos hr]
    · rw [if_neg hr, if_neg hr]

theorem isTrial (h : Interleaved w rs rs') (hrs : ∀ r ∈ rs, r.IsTrial w) :
    ∀ r ∈ rs', r.IsTrial w := by
  intro r' hr'
  obtain ⟨r, hr, hmembers⟩ := List.mem_map.1 (h.perm.mem_iff.2 (List.mem_map_of_mem hr'))
  have htrial := hrs r hr
  rw [Record.isTrial_iff] at htrial ⊢
  obtain ⟨t, ht⟩ := htrial
  exact ⟨t, (Record.trial_congr hmembers).1 ht⟩

/-- Other configurations may come first, but they are the same. -/
theorem configurations_perm (h : Interleaved w rs rs') :
    (configurations w rs).Perm (configurations w rs') := by
  unfold configurations
  rw [List.perm_ext_iff_of_nodup (nodup_eraseDups _) (nodup_eraseDups _)]
  intro c
  show c ∈ configurations w rs ↔ c ∈ configurations w rs'
  rw [mem_configurations, mem_configurations, Ne, ofConfiguration_eq_nil_congr (h.order c)]

theorem sameGroups (h : Interleaved w rs rs') : SameGroups w rs rs' :=
  ⟨h.configurations_perm, fun c => group_congr (h.order c)⟩

end Rows.Interleaved

namespace Grouping.Summarizes

variable {w : Workload} {rs rs' : List Record} {g g' : Grouping}

theorem compare_perm (hg : g.Summarizes w rs) (hg' : g'.Summarizes w rs')
    (h : Rows.SameGroups w rs rs') (p : Policy) {b b' : Baseline}
    (hb : b.entries.Perm b'.entries) : (g.compare p b).Perm (g'.compare p b') := by
  have hsame : g.compareEntry p = g'.compareEntry p := by
    funext entry
    have hget := hg.get?_eq_get? hg' (h.ofConfiguration_eq_nil_iff entry.configuration) (h.group _)
    exact compareEntry_congr hg hg' hget p
  unfold compare
  rw [hsame]
  exact hb.flatMap_right _

theorem noise_perm (hg : g.Summarizes w rs) (hg' : g'.Summarizes w rs')
    (h : Rows.SameGroups w rs rs') (p : Policy) : (g.noise p).Perm (g'.noise p) := by
  unfold noise
  rw [hg.workload, hg'.workload, hg.groups, hg'.groups, funext h.group]
  exact (h.configurations.map _).flatMap_right _

end Grouping.Summarizes

/-! ## Runs -/

/-- What a run is judged on: the rows of both workloads, and the baselines. -/
structure Evidence where
  am : List Record
  cluster : List Record
  baselines : Baselines

namespace Evidence

/-- The rows of a workload. -/
def rows (e : Evidence) : Workload → List Record
  | .am => e.am
  | .cluster => e.cluster

/-- The judgement: rows are grouped, then held against the baselines. -/
def judge (e : Evidence) (p : Policy) : Except Error Assessment := do
  let am ← Grouping.ofRecords .am e.am
  let cluster ← Grouping.ofRecords .cluster e.cluster
  Assessment.make am cluster e.baselines p

/-- A judgement is made of the groups of both workloads, under a policy that makes sense. -/
theorem judge_eq_ok_iff {e : Evidence} {p : Policy} {a : Assessment} :
    e.judge p = .ok a ↔ p.fault? = none ∧ ∃ am cluster,
      Grouping.ofRecords .am e.am = .ok am ∧ Grouping.ofRecords .cluster e.cluster = .ok cluster ∧
      a = {
        findings := am.compare p e.baselines.am ++ cluster.compare p e.baselines.cluster ++
          am.noise p ++ cluster.noise p
        compared := e.baselines.am.entries.length + e.baselines.cluster.entries.length } := by
  unfold judge
  simp only [bind_eq_ok_iff]
  constructor
  · rintro ⟨am, ham, cluster, hcluster, h⟩
    unfold Assessment.make at h
    rw [(Grouping.ofRecords_summarizes ham).workload,
      (Grouping.ofRecords_summarizes hcluster).workload] at h
    split at h
    · cases h
    · rename_i hp
      cases h
      exact ⟨hp, am, cluster, ham, hcluster, rfl⟩
  · rintro ⟨hp, am, cluster, ham, hcluster, rfl⟩
    refine ⟨am, ham, cluster, hcluster, ?_⟩
    unfold Assessment.make
    rw [hp, (Grouping.ofRecords_summarizes ham).workload,
      (Grouping.ofRecords_summarizes hcluster).workload]
    rfl

/-- What is found about a configuration, from its entries and its group. -/
theorem about_eq {e : Evidence} {p : Policy} {a : Assessment} (h : e.judge p = .ok a)
    (w : Workload) (c : Configuration) : ∃ g, Grouping.Summarizes w (e.rows w) g ∧
      a.about w c =
        ((e.baselines.of w).entries.filter (·.configuration = c)).flatMap (g.compareEntry p) ++
          (g.get? c).toList.flatMap fun group => group.noise p w.metrics := by
  obtain ⟨_, am, cluster, ham, hcluster, rfl⟩ := judge_eq_ok_iff.1 h
  have ham := Grouping.ofRecords_summarizes ham
  have hcluster := Grouping.ofRecords_summarizes hcluster
  unfold Assessment.about
  simp only [List.filter_append, ham.filter_compare, ham.filter_noise, hcluster.filter_compare,
    hcluster.filter_noise]
  -- of the four parts, the two of the other workload hold nothing about this one
  cases w with
  | am =>
      refine ⟨am, ham, ?_⟩
      simp only [if_true, reduceCtorEq, if_false, List.append_nil]
      rfl
  | cluster =>
      refine ⟨cluster, hcluster, ?_⟩
      simp only [if_true, reduceCtorEq, if_false, List.append_nil, List.nil_append]
      rfl

/-- What is found about a configuration depends on the summary of its rows and on its entries. -/
theorem about_eq_about {e e' : Evidence} {p : Policy} {a a' : Assessment} (h : e.judge p = .ok a)
    (h' : e'.judge p = .ok a') {w : Workload} {c : Configuration}
    (hrows : Rows.ofConfiguration w (e.rows w) c = [] ↔
      Rows.ofConfiguration w (e'.rows w) c = [])
    (hgroup : Rows.group w (e.rows w) c = Rows.group w (e'.rows w) c)
    (hentries : (e.baselines.of w).entries.filter (·.configuration = c) =
      (e'.baselines.of w).entries.filter (·.configuration = c)) : a.about w c = a'.about w c := by
  obtain ⟨g, hg, habout⟩ := about_eq h w c
  obtain ⟨g', hg', habout'⟩ := about_eq h' w c
  have hget := hg.get?_eq_get? hg' hrows hgroup
  rw [habout, habout', hentries, hget]
  congr 1
  apply List.flatMap_congr
  intro entry hentry
  have hc : entry.configuration = c := by simpa using List.of_mem_filter hentry
  exact hg.compareEntry_congr hg' (by rw [hc, hget]) p

/-- **Locality.** What is found about a configuration of a workload is the same in two judgements
under one policy if its rows and its entries are the same in both, whatever the rest is. -/
theorem about_congr {e e' : Evidence} {p : Policy} {a a' : Assessment} (h : e.judge p = .ok a)
    (h' : e'.judge p = .ok a') {w : Workload} {c : Configuration}
    (hrows : (Rows.ofConfiguration w (e.rows w) c).map (·.members) =
      (Rows.ofConfiguration w (e'.rows w) c).map (·.members))
    (hentries : (e.baselines.of w).entries.filter (·.configuration = c) =
      (e'.baselines.of w).entries.filter (·.configuration = c)) : a.about w c = a'.about w c :=
  about_eq_about h h' (Rows.ofConfiguration_eq_nil_congr hrows) (Rows.group_congr hrows) hentries

/-- The rows of a run that is judged are trials. -/
theorem isTrial_of_judge {e : Evidence} {p : Policy} {a : Assessment} (h : e.judge p = .ok a)
    (w : Workload) : ∀ r ∈ e.rows w, r.IsTrial w := by
  obtain ⟨_, am, cluster, ham, hcluster, -⟩ := judge_eq_ok_iff.1 h
  cases w with
  | am => exact Grouping.exists_ofRecords_iff.1 ⟨am, ham⟩
  | cluster => exact Grouping.exists_ofRecords_iff.1 ⟨cluster, hcluster⟩

/-- A run is judged under a policy that makes sense if its rows are trials. -/
theorem exists_judge_of_isTrial {e : Evidence} {p : Policy} (hp : p.fault? = none)
    (hrows : ∀ w, ∀ r ∈ e.rows w, r.IsTrial w) : ∃ a, e.judge p = .ok a := by
  obtain ⟨am, ham⟩ := Grouping.exists_ofRecords_iff.2 (hrows .am)
  obtain ⟨cluster, hcluster⟩ := Grouping.exists_ofRecords_iff.2 (hrows .cluster)
  exact ⟨_, judge_eq_ok_iff.2 ⟨hp, am, cluster, ham, hcluster, rfl⟩⟩

/-- The same summaries and the same entries, in whatever order, give the same findings. -/
theorem findings_perm_of_sameGroups {e e' : Evidence} {p : Policy} {a a' : Assessment}
    (h : e.judge p = .ok a) (h' : e'.judge p = .ok a')
    (hrows : ∀ w, Rows.SameGroups w (e.rows w) (e'.rows w))
    (hentries : ∀ w, (e.baselines.of w).entries.Perm (e'.baselines.of w).entries) :
    a.findings.Perm a'.findings := by
  obtain ⟨-, am, cluster, ham, hcluster, rfl⟩ := judge_eq_ok_iff.1 h
  obtain ⟨-, am', cluster', ham', hcluster', rfl⟩ := judge_eq_ok_iff.1 h'
  have ham := Grouping.ofRecords_summarizes ham
  have ham' := Grouping.ofRecords_summarizes ham'
  have hcluster := Grouping.ofRecords_summarizes hcluster
  have hcluster' := Grouping.ofRecords_summarizes hcluster'
  exact (((ham.compare_perm ham' (hrows .am) p (hentries .am)).append
    (hcluster.compare_perm hcluster' (hrows .cluster) p (hentries .cluster))).append
    (ham.noise_perm ham' (hrows .am) p)).append
    (hcluster.noise_perm hcluster' (hrows .cluster) p)

/-- **Order.** Another interleaving of the rows and another order of the entries are judged as well,
and the same is found. -/
theorem findings_perm {e e' : Evidence} {p : Policy} {a : Assessment} (h : e.judge p = .ok a)
    (hrows : ∀ w, Rows.Interleaved w (e.rows w) (e'.rows w))
    (hentries : ∀ w, (e.baselines.of w).entries.Perm (e'.baselines.of w).entries) :
    ∃ a', e'.judge p = .ok a' ∧ a.findings.Perm a'.findings := by
  obtain ⟨a', h'⟩ := exists_judge_of_isTrial (judge_eq_ok_iff.1 h).1
    fun w => (hrows w).isTrial (isTrial_of_judge h w)
  exact ⟨a', h', findings_perm_of_sameGroups h h' (fun w => (hrows w).sameGroups) hentries⟩

/-- The exit status depends on the findings up to their order. -/
theorem status_congr {a a' : Assessment} (h : a.findings.Perm a'.findings) :
    a.status = a'.status := by
  unfold Assessment.status Assessment.passes
  rw [h.isEmpty_eq]

/-- Each configuration is judged by itself: what is found about it is the same in every run with the
same rows and the same entries of it. So interleaving the rows and ordering the entries in another
way permutes the findings and keeps the exit status. -/
theorem judge_local {e : Evidence} {p : Policy} {a : Assessment} (h : e.judge p = .ok a)
    (e' : Evidence) :
    (∀ a', e'.judge p = .ok a' → ∀ w c,
      (Rows.ofConfiguration w (e.rows w) c).map (·.members) =
        (Rows.ofConfiguration w (e'.rows w) c).map (·.members) →
      (e.baselines.of w).entries.filter (·.configuration = c) =
        (e'.baselines.of w).entries.filter (·.configuration = c) →
      a.about w c = a'.about w c) ∧
    ((∀ w, Rows.Interleaved w (e.rows w) (e'.rows w)) →
      (∀ w, (e.baselines.of w).entries.Perm (e'.baselines.of w).entries) →
      ∃ a', e'.judge p = .ok a' ∧ a.findings.Perm a'.findings ∧ a.status = a'.status) := by
  constructor
  · intro a' h' w c hrows hentries
    exact about_congr h h' hrows hentries
  · intro hrows hentries
    obtain ⟨a', h', hperm⟩ := findings_perm h hrows hentries
    exact ⟨a', h', hperm, status_congr hperm⟩

/-- Rows and entries of configurations that differ in their names only. The rows have eighty queries
per second, of a hundred that the entries record. -/
def named (rows entries : List String) : Evidence :=
  let configuration (name : String) : Configuration := ⟨name, 256, 16, 10⟩
  let recorded : List (String × Stats) :=
    [("queries_per_sec", .ofList [.ofNat 100]), ("eff_gb_per_sec", .ofList [.ofNat 2])]
  { am := rows.map fun name => .spelling .am 1 (configuration name) [80, 2]
    cluster := []
    baselines := ⟨⟨entries.map fun name => ⟨configuration name, recorded⟩⟩, .empty⟩ }

/-- The drop of the one configuration that was run and recorded moves from the end to the front. -/
theorem named_regrouped : ∃ a a',
    (named ["a", "b", "a"] ["c", "d", "a"]).judge .standard = .ok a ∧
    (named ["b", "a", "a"] ["a", "d", "c"]).judge .standard = .ok a' ∧
    a.findings.map (·.isDrop .queries ⟨"a", 256, 16, 10⟩) = [false, false, true] ∧
    a'.findings.map (·.isDrop .queries ⟨"a", 256, 16, 10⟩) = [true, false, false] ∧
    a.about .am ⟨"a", 256, 16, 10⟩ = a'.about .am ⟨"a", 256, 16, 10⟩ ∧
    a.about .am ⟨"d", 256, 16, 10⟩ = a'.about .am ⟨"d", 256, 16, 10⟩ ∧
    a.findings.Perm a'.findings ∧ a.status = a'.status := by
  let e := named ["a", "b", "a"] ["c", "d", "a"]
  let e' := named ["b", "a", "a"] ["a", "d", "c"]
  have hdrops : (e.judge .standard).toOption.map
      (·.findings.map (·.isDrop .queries ⟨"a", 256, 16, 10⟩)) = some [false, false, true] := by
    decide +kernel
  have hdrops' : (e'.judge .standard).toOption.map
      (·.findings.map (·.isDrop .queries ⟨"a", 256, 16, 10⟩)) = some [true, false, false] := by
    decide +kernel
  obtain ⟨a, hjudge, hlast⟩ := Option.map_eq_some_iff.1 hdrops
  have h : e.judge .standard = .ok a := toOption_eq_some_iff.1 hjudge
  have hrows : ∀ w, Rows.Interleaved w (e.rows w) (e'.rows w) := by
    intro w
    cases w with
    | am => exact Rows.Interleaved.swap (by decide) [] _
    | cluster => exact Rows.Interleaved.refl _ _
  have hentries : ∀ w, (e.baselines.of w).entries.Perm
      (e'.baselines.of w).entries := by
    intro w
    cases w with
    | am => exact (List.reverse_perm _).symm
    | cluster => exact List.Perm.refl _
  obtain ⟨a', h', hperm, hstatus⟩ := (judge_local h e').2 hrows hentries
  rw [h'] at hdrops'
  have habout := fun c => (judge_local h e').1 a' h' .am c ((hrows .am).order c)
  exact ⟨a, a', h, h', hlast, Option.some.inj hdrops', habout _ rfl, habout _ rfl, hperm, hstatus⟩

end Evidence

end PerfGate
