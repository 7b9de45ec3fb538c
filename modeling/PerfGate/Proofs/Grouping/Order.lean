import PerfGate.Proofs.Grouping.Refinement
import PerfGate.Proofs.Stats.Order

/-!
# Grouping — the order of the rows

Rows in another order are the same trials: each configuration has the same rows in another order, and
each metric the same values. So the same groups come of them, in another order, with as many trials
each and the same medians (`ofRecords_perm`). Means and deviations are sums in doubles, which depend
on the order of their terms.
-/

namespace PerfGate

/-- The medians of a group, in the order of the workload. -/
def Group.medians (g : Group) : List (Metric × Binary64) := g.stats.map fun (m, s) => (m, s.median)

namespace Rows

variable {w : Workload} {rs rs' : List Record}

theorem ofConfiguration_perm (h : rs.Perm rs') (c : Configuration) :
    (ofConfiguration w rs c).Perm (ofConfiguration w rs' c) :=
  h.filter _

theorem values_perm (h : rs.Perm rs') (c : Configuration) (m : Metric) :
    (values w rs c m).Perm (values w rs' c m) :=
  (ofConfiguration_perm h c).filterMap _

theorem configurations_perm (h : rs.Perm rs') :
    (configurations w rs).Perm (configurations w rs') :=
  eraseDups_perm (h.filterMap _)

theorem ofConfiguration_eq_nil_of_perm (h : rs.Perm rs') (c : Configuration) :
    ofConfiguration w rs c = [] ↔ ofConfiguration w rs' c = [] := by
  have hperm := ofConfiguration_perm (w := w) h c
  constructor
  · intro hnil
    rw [hnil] at hperm
    exact hperm.nil_eq.symm
  · intro hnil
    rw [hnil] at hperm
    exact hperm.eq_nil

theorem medians_group_of_perm (h : rs.Perm rs') (c : Configuration) :
    (group w rs c).medians = (group w rs' c).medians := by
  simp only [Group.medians, group, List.map_map]
  apply List.map_congr_left
  intro m _
  show (m, Stats.medianOf (values w rs c m)) = (m, Stats.medianOf (values w rs' c m))
  rw [Stats.medianOf_eq_of_perm (values_perm h c m)]

end Rows

namespace Grouping

variable {w : Workload} {rs rs' : List Record}

/-- The order of the rows matters neither to whether they can be grouped nor to the grouping itself:
the configurations that have a group are the same, each with as many trials and, for each metric, the
same median to the bit. -/
theorem ofRecords_perm (h : rs.Perm rs') :
    ((∃ g, ofRecords w rs = .ok g) ↔ ∃ g', ofRecords w rs' = .ok g') ∧
    ∀ g g', ofRecords w rs = .ok g → ofRecords w rs' = .ok g' →
      (g.groups.map (·.configuration)).Perm (g'.groups.map (·.configuration)) ∧
      (∀ c, g.trialCount c = g'.trialCount c) ∧
      (∀ c, (g.get? c).map Group.medians = (g'.get? c).map Group.medians) := by
  constructor
  · simp only [exists_ofRecords_iff, h.mem_iff]
  · intro g g' hg hg'
    have hg := ofRecords_summarizes hg
    have hg' := ofRecords_summarizes hg'
    refine ⟨?_, fun c => ?_, fun c => ?_⟩
    · rw [hg.map_configuration, hg'.map_configuration]
      exact Rows.configurations_perm h
    · rw [hg.trialCount_eq, hg'.trialCount_eq]
      exact (Rows.ofConfiguration_perm h c).length_eq
    · rw [hg.get?_eq, hg'.get?_eq, apply_ite (Option.map _), apply_ite (Option.map _)]
      refine if_congr (Rows.ofConfiguration_eq_nil_of_perm h c) rfl ?_
      rw [Option.map_some, Option.map_some, Rows.medians_group_of_perm h]

/-- Three trials of one configuration: a number below zero, and zeros of both signs. -/
def signedZeros : List Record :=
  let row (line : Nat) (x : Binary64) : Record :=
    let spelled := Record.spelling .am line ⟨"a", 256, 16, 10⟩ [0, 2]
    { spelled with members := spelled.members.set "queries_per_sec" (.real x) }
  [row 1 (-.ofNat 1), row 2 (.zero true), row 3 (.zero false)]

/-- The middle one is `-0.0`, also from behind. -/
theorem ofRecords_perm_signedZeros : ∃ g g', ofRecords .am signedZeros = .ok g ∧
    ofRecords .am signedZeros.reverse = .ok g' ∧
    g'.trialCount ⟨"a", 256, 16, 10⟩ = 3 ∧
    (g'.get? ⟨"a", 256, 16, 10⟩).map Group.medians =
      some [(.queries, .zero true), (.bandwidth, .ofNat 2)] := by
  have hperm : signedZeros.Perm signedZeros.reverse := (List.reverse_perm _).symm
  obtain ⟨hok, hsame⟩ := ofRecords_perm (w := .am) hperm
  obtain ⟨g, hg⟩ := exists_ofRecords_iff.2 (by decide : ∀ r ∈ signedZeros, r.IsTrial .am)
  obtain ⟨g', hg'⟩ := hok.1 ⟨g, hg⟩
  obtain ⟨-, hcount, hmedians⟩ := hsame g g' hg hg'
  have hsummary := ofRecords_summarizes hg
  have hsorted : ∀ m ∈ Workload.am.metrics,
      (Rows.values .am signedZeros ⟨"a", 256, 16, 10⟩ m).Pairwise fun x y => x.rank ≤ y.rank := by
    decide +kernel
  refine ⟨g, g', hg, hg', ?_, ?_⟩
  · rw [← hcount, hsummary.trialCount_eq]
    decide
  · rw [← hmedians, hsummary.get?_eq, if_neg (by decide), Option.map_some]
    simp only [Group.medians, Rows.group, Workload.metrics, List.map_cons, List.map_nil,
      Stats.ofList, Stats.medianOf, Stats.sorted_eq_self (hsorted .queries (by decide)),
      Stats.sorted_eq_self (hsorted .bandwidth (by decide))]
    decide +kernel

end Grouping

end PerfGate
