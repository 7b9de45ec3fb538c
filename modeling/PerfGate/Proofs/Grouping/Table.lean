import Mathlib.Data.List.Induction
import PerfGate.Grouping

/-!
# Grouping — what the series table holds

Trials of interleaved configurations come in one after another. The table is described without its
index: there is one series for each configuration, in the order in which the configurations first
occur, and it is the series that the trials of that configuration alone give. The index holds the
place of each of them and nothing else. One trial keeps this description (`Describes.add`), so it
holds of any list of trials (`describes_ofTrials`).
-/

namespace PerfGate

/-! ## First occurrences -/

section FirstOccurrences

variable {α : Type} [BEq α] [LawfulBEq α]

theorem eraseDups_concat_of_mem {xs : List α} {x : α} (h : x ∈ xs) :
    (xs ++ [x]).eraseDups = xs.eraseDups := by
  rw [List.eraseDups_append]
  simp [List.removeAll, h]

theorem eraseDups_concat_of_not_mem {xs : List α} {x : α} (h : x ∉ xs) :
    (xs ++ [x]).eraseDups = xs.eraseDups ++ [x] := by
  rw [List.eraseDups_append]
  simp [List.removeAll, h, List.eraseDups_cons]

theorem nodup_eraseDups (xs : List α) : xs.eraseDups.Nodup := by
  induction xs using List.reverseRecOn with
  | nil => simp
  | append_singleton xs x ih =>
      by_cases h : x ∈ xs
      · rw [eraseDups_concat_of_mem h]
        exact ih
      · rw [eraseDups_concat_of_not_mem h, List.nodup_append]
        refine ⟨ih, by simp, ?_⟩
        intro a ha b hb hab
        rw [List.mem_singleton] at hb
        rw [hab, hb] at ha
        exact h (List.mem_eraseDups.1 ha)

/-- Another order keeps what occurs. -/
theorem eraseDups_perm {xs ys : List α} (h : xs.Perm ys) : xs.eraseDups.Perm ys.eraseDups := by
  rw [List.perm_ext_iff_of_nodup (nodup_eraseDups _) (nodup_eraseDups _)]
  intro x
  rw [List.mem_eraseDups, List.mem_eraseDups, h.mem_iff]

end FirstOccurrences

theorem getElem?_concat_eq_some_iff {α : Type} {xs : List α} {x y : α} {i : Nat} :
    (xs ++ [x])[i]? = some y ↔ xs[i]? = some y ∨ i = xs.length ∧ x = y := by
  rw [List.getElem?_append]
  split
  · rename_i hlt
    simp [Nat.ne_of_lt hlt]
  · rename_i hge
    rw [List.getElem?_singleton, List.getElem?_eq_none (by omega)]
    split
    · simp [show i = xs.length by omega]
    · simp [show i ≠ xs.length by omega]

/-- The configurations of trials, in the order in which they first occur. -/
def Trial.configurations (ts : List Trial) : List Configuration :=
  (ts.map (·.configuration)).eraseDups

theorem Trial.mem_configurations {ts : List Trial} {c : Configuration} :
    c ∈ configurations ts ↔ ∃ t ∈ ts, t.configuration = c := by
  unfold configurations
  rw [List.mem_eraseDups, List.mem_map]

/-! ## One series -/

namespace Series

/-- The series of a configuration, from the trials of that configuration alone. -/
def collect (w : Workload) (ts : List Trial) (c : Configuration) : Series :=
  (ts.filter (·.configuration = c)).foldl (fun s t => s.add t.values) (opened w c)

theorem collect_concat_self (w : Workload) (ts : List Trial) (t : Trial) :
    collect w (ts ++ [t]) t.configuration = (collect w ts t.configuration).add t.values := by
  unfold collect
  rw [List.filter_append, List.foldl_append]
  simp

theorem collect_concat_of_ne {w : Workload} {ts : List Trial} {t : Trial} {c : Configuration}
    (h : t.configuration ≠ c) : collect w (ts ++ [t]) c = collect w ts c := by
  unfold collect
  rw [List.filter_append]
  simp [h]

theorem collect_of_not_mem {w : Workload} {ts : List Trial} {c : Configuration}
    (h : c ∉ Trial.configurations ts) : collect w ts c = opened w c := by
  have hnone : ts.filter (·.configuration = c) = [] := by
    rw [List.filter_eq_nil_iff]
    intro t ht hc
    exact h (Trial.mem_configurations.2 ⟨t, ht, by simpa using hc⟩)
  unfold collect
  rw [hnone]
  rfl

end Series

/-! ## The table -/

namespace SeriesTable

/-- **The loop invariant**: the table after the trials `ts`. -/
structure Describes (w : Workload) (ts : List Trial) (table : SeriesTable) : Prop where
  series : table.series = (Trial.configurations ts).map (Series.collect w ts)
  index : ∀ c i, table.index.lookup c = some i ↔ (Trial.configurations ts)[i]? = some c

variable {w : Workload} {ts : List Trial} {table : SeriesTable}

theorem Describes.length (h : Describes w ts table) :
    table.series.length = (Trial.configurations ts).length := by
  rw [h.series, List.length_map]

theorem Describes.lookup_eq_none_iff (h : Describes w ts table) {c : Configuration} :
    table.index.lookup c = none ↔ c ∉ Trial.configurations ts := by
  rw [List.mem_iff_getElem?, Option.eq_none_iff_forall_ne_some, not_exists]
  exact forall_congr' fun i => not_congr (h.index c i)

/-- A trial of a configuration that has a series is added to that series, and no other changes. -/
theorem Describes.add_known (h : Describes w ts table) (t : Trial) {i : Nat}
    (hi : table.index.lookup t.configuration = some i) :
    Describes w (ts ++ [t]) (table.add w t) := by
  have hplace := (h.index _ _).1 hi
  have hmem : t.configuration ∈ ts.map (·.configuration) :=
    List.mem_eraseDups.1 (List.mem_of_getElem? hplace)
  have horder : Trial.configurations (ts ++ [t]) = Trial.configurations ts := by
    unfold Trial.configurations
    rw [List.map_append, List.map_singleton, eraseDups_concat_of_mem hmem]
  have hadd : table.add w t =
      { table with series := table.series.modify i (Series.add t.values) } := by
    simp only [add, place, hi]
  rw [hadd]
  constructor
  · rw [horder, h.series]
    apply List.ext_getElem?
    intro j
    rw [List.getElem?_modify, List.getElem?_map, List.getElem?_map]
    cases hj : (Trial.configurations ts)[j]? with
    | none => rfl
    | some c =>
        by_cases hij : i = j
        · -- the series of the trial itself
          subst hij
          cases Option.some.inj (hj.symm.trans hplace)
          simp [Series.collect_concat_self]
        · -- no configuration occurs twice, so another place holds another one
          have hne : t.configuration ≠ c := by
            rintro rfl
            have hlt := (List.getElem?_eq_some_iff.1 hplace).1
            exact hij ((List.getElem?_inj hlt (nodup_eraseDups _)).1 (hplace.trans hj.symm))
          simp [hij, Series.collect_concat_of_ne hne]
  · intro c j
    rw [horder]
    exact h.index c j

/-- A trial of a new configuration opens a series at the end. -/
theorem Describes.add_new (h : Describes w ts table) (t : Trial)
    (hi : table.index.lookup t.configuration = none) :
    Describes w (ts ++ [t]) (table.add w t) := by
  have hnew := h.lookup_eq_none_iff.1 hi
  have horder : Trial.configurations (ts ++ [t]) =
      Trial.configurations ts ++ [t.configuration] := by
    have hnot : t.configuration ∉ ts.map (·.configuration) :=
      fun hm => hnew (List.mem_eraseDups.2 hm)
    unfold Trial.configurations
    rw [List.map_append, List.map_singleton, eraseDups_concat_of_not_mem hnot]
  have hadd : table.add w t =
      ⟨table.series ++ [(Series.opened w t.configuration).add t.values],
        (t.configuration, table.series.length) :: table.index⟩ := by
    simp only [add, place, hi, List.modify_eq_take_drop, List.take_left, List.drop_left]
    rfl
  rw [hadd]
  constructor
  · -- a trial of a new configuration adds nothing to the series that are there
    have hold : (Trial.configurations ts).map (Series.collect w (ts ++ [t])) = table.series := by
      rw [h.series]
      apply List.map_congr_left
      intro c hc
      apply Series.collect_concat_of_ne
      rintro rfl
      exact hnew hc
    rw [horder, List.map_append, List.map_singleton, hold, Series.collect_concat_self,
      Series.collect_of_not_mem hnew]
  · intro c j
    rw [horder, getElem?_concat_eq_some_iff, List.lookup_cons, h.length, ← h.index c j]
    by_cases hc : c = t.configuration
    · subst hc
      simp [hi, eq_comm]
    · have hbeq : (c == t.configuration) = false := by simpa using hc
      simp [hbeq, Ne.symm hc]

theorem Describes.add (h : Describes w ts table) (t : Trial) :
    Describes w (ts ++ [t]) (table.add w t) := by
  cases hi : table.index.lookup t.configuration with
  | none => exact h.add_new t hi
  | some i => exact h.add_known t hi

theorem describes_ofTrials (w : Workload) (ts : List Trial) :
    Describes w ts (ofTrials w ts) := by
  -- from the end: the last trial is the one that is added last
  induction ts using List.reverseRecOn with
  | nil => exact ⟨rfl, by simp [ofTrials, empty, Trial.configurations]⟩
  | append_singleton ts t ih =>
      have hstep : ofTrials w (ts ++ [t]) = (ofTrials w ts).add w t := by
        unfold ofTrials
        rw [List.foldl_append]
        rfl
      rw [hstep]
      exact ih.add t

end SeriesTable

end PerfGate
