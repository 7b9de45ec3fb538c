import PerfGate.Proofs.Baseline.Entries
import PerfGate.Proofs.Json.Finite

/-!
# Baseline — what a document promises

A document that is accepted records every tracked metric of every configuration in it, with finite
numbers (`parse_complete`). So a comparison never passes over a metric for want of a recorded mean,
and each recorded mean is positive or not.
-/

namespace PerfGate

open Json (Value)

/-- A summary of finite numbers. -/
structure Stats.Finite (s : Stats) : Prop where
  mean : s.mean.isFinite
  median : s.median.isFinite
  stdev : s.stdev.isFinite

instance (s : Stats) : Decidable s.Finite :=
  decidable_of_iff (s.mean.isFinite ∧ s.median.isFinite ∧ s.stdev.isFinite)
    ⟨fun h => ⟨h.1, h.2.1, h.2.2⟩, fun h => ⟨h.mean, h.median, h.stdev⟩⟩

/-- An entry that records all metrics of a workload, with finite numbers. -/
structure BaselineEntry.Complete (w : Workload) (entry : BaselineEntry) : Prop where
  recorded : ∀ m ∈ w.metrics, (entry.stats.lookup m.field).isSome
  finite : ∀ s ∈ entry.stats, s.2.Finite

namespace Baseline

/-! ## Summaries -/

theorem readNumber_isFinite {v : Value} {x : Binary64} (hv : v.Finite)
    (h : readNumber v = .ok x) : x.isFinite := by
  cases hv with
  | @integer i hi =>
      have hx : Binary64.ofInt i = x := Except.ok.inj h
      rw [← hx]
      exact Binary64.isFinite_ofRatio_one (Nat.le_of_lt hi) (by decide)
  | real hx =>
      cases h
      exact hx
  | null => cases h
  | bool => cases h
  | string => cases h
  | array => cases h
  | object => cases h

theorem readNumbers_isFinite {members : Json.Members} {numbers : List (String × Binary64)}
    (hv : ∀ m ∈ members, m.2.Finite) (h : readNumbers members = .ok numbers) :
    ∀ n ∈ numbers, n.2.isFinite := by
  induction members generalizing numbers with
  | nil =>
      cases h
      simp
  | cons member rest ih =>
      obtain ⟨name, v⟩ := member
      rw [List.forall_mem_cons] at hv
      unfold readNumbers at h
      split at h
      · simp only [bind_eq_ok_iff] at h
        obtain ⟨x, hx, xs, hxs, heq⟩ := h
        cases heq
        exact List.forall_mem_cons.2 ⟨readNumber_isFinite hv.1 hx, ih hv.2 hxs⟩
      · exact ih hv.2 h

theorem isFinite_getD {x? : Option Binary64} (h : ∀ x ∈ x?, x.isFinite) :
    (x?.getD (.zero false)).isFinite := by
  cases x? with
  | none => rfl
  | some x => exact h x rfl

/-- The numbers of a recorded summary are finite, those that are left out included. -/
theorem readStats_finite {v : Value} {s : Stats} (hv : v.Finite) (h : readStats v = .ok s) :
    s.Finite := by
  cases hv with
  | object hmembers =>
      simp only [readStats, bind_eq_ok_iff] at h
      obtain ⟨numbers, hnumbers, hs⟩ := h
      have hget : ∀ name, ((numbers.lookup name).getD (.zero false)).isFinite := fun name =>
        isFinite_getD fun x hx => readNumbers_isFinite hmembers hnumbers _ (lookup_mem hx)
      split at hs
      · cases hs
      · cases hs
        exact ⟨hget _, hget _, hget _⟩
  | array hitems =>
      simp only [readStats, bind_eq_ok_iff] at h
      obtain ⟨numbers, hnumbers, hs⟩ := h
      have hfinite := forall_of_mapM_eq_ok hnumbers
        (fun v hv => hitems v (List.mem_of_mem_take hv)) fun _ _ => readNumber_isFinite
      have hget : ∀ i, ((numbers[i]?).getD (Binary64.zero false)).isFinite := fun i =>
        isFinite_getD fun x hx => hfinite x (List.mem_of_getElem? hx)
      split at hs
      · cases hs
      · split at hs
        · cases hs
        · cases hs
          exact ⟨hget _, hget _, hget _⟩
  | null => cases h
  | bool => cases h
  | string => cases h
  | integer => cases h
  | real => cases h

theorem Records.finite {v : Value} {stats : List (String × Stats)} (h : Records v stats)
    (hv : v.Finite) : ∀ s ∈ stats, s.2.Finite := by
  obtain ⟨members, rfl, hmembers⟩ := h
  cases hv with
  | object hfinite => exact forall_of_forall₂ hmembers hfinite fun _ _ hm hs => readStats_finite hm hs.2

/-! ## Documents -/

theorem Accepted.complete {w : Workload} {m : String × Value} {entry : BaselineEntry}
    (h : Accepted w m entry) (hm : m.2.Finite) : entry.Complete w :=
  ⟨h.metrics, h.value.finite hm⟩

/-- **Nothing tracked is left out**: every entry of an accepted document is complete. -/
theorem parse_complete {w : Workload} {path text : String} {b : Baseline}
    (h : parse w path text = .ok b) : ∀ entry ∈ b.entries, entry.Complete w := by
  obtain ⟨members, hmembers, hentries⟩ := parse_eq_ok_iff.1 h
  exact forall_of_forall₂ hentries (Json.parseObject?_finite hmembers) fun _ _ hm haccepted =>
    haccepted.complete hm

end Baseline

end PerfGate
