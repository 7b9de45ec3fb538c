import Mathlib.Data.List.Perm.Basic
import PerfGate.Proofs.Binary64.SumError
import PerfGate.Stats

/-!
# Stats — the order of the measurements

Sorting is by rank, and different doubles have different ranks, signed zeros included. So a list is
sorted in one way only (`sorted_eq_of_perm`), and the median is the same double in whatever order the
measurements came. Mean and deviation are sums. They are the same if the measurements, and for the
deviation their squared distances from the mean, have a sum that does not depend on their order
(`ofList_eq_of_perm`). Means of others are a few roundings apart (`near_meanOf`).
-/

namespace PerfGate.Stats

variable {xs ys : List Binary64}

/-! ## Sorting -/

theorem sorted_perm (xs : List Binary64) : (sorted xs).Perm xs :=
  List.mergeSort_perm xs _

theorem pairwise_sorted (xs : List Binary64) :
    (sorted xs).Pairwise fun x y => x.rank ≤ y.rank := by
  have htrans : ∀ x y z : Binary64, decide (x.rank ≤ y.rank) = true →
      decide (y.rank ≤ z.rank) = true → decide (x.rank ≤ z.rank) = true := by
    intro x y z hxy hyz
    rw [decide_eq_true_eq] at *
    omega
  have htotal : ∀ x y : Binary64,
      (decide (x.rank ≤ y.rank) || decide (y.rank ≤ x.rank)) = true := by
    intro x y
    rw [Bool.or_eq_true, decide_eq_true_eq, decide_eq_true_eq]
    omega
  exact (List.pairwise_mergeSort htrans htotal xs).imp of_decide_eq_true

theorem sorted_eq_self (h : xs.Pairwise fun x y => x.rank ≤ y.rank) : sorted xs = xs :=
  List.mergeSort_of_pairwise (h.imp decide_eq_true)

/-- There is one sorted list of the same doubles. -/
theorem sorted_eq_of_perm (h : xs.Perm ys) : sorted xs = sorted ys := by
  have hantisymm : ∀ x y, x ∈ sorted xs → y ∈ sorted ys →
      x.rank ≤ y.rank → y.rank ≤ x.rank → x = y :=
    fun x y _ _ hxy hyx => Binary64.rank_injective (Int.le_antisymm hxy hyx)
  exact List.Perm.eq_of_pairwise hantisymm (pairwise_sorted xs) (pairwise_sorted ys)
    ((sorted_perm xs).trans (h.trans (sorted_perm ys).symm))

theorem medianOf_eq_of_perm (h : xs.Perm ys) : medianOf xs = medianOf ys := by
  unfold medianOf
  rw [sorted_eq_of_perm h]

/-! ## Sums -/

/-- The squared distances of measurements from their mean. -/
def squares (xs : List Binary64) : List Binary64 :=
  xs.map fun x => (x - meanOf xs) * (x - meanOf xs)

theorem meanOf_eq_of_perm (hxs : Binary64.Steady xs) (h : xs.Perm ys) :
    meanOf xs = meanOf ys := by
  unfold meanOf
  rw [h.isEmpty_eq, h.length_eq, hxs.sum_eq_of_perm h]

theorem squares_perm (hmean : meanOf xs = meanOf ys) (h : xs.Perm ys) :
    (squares xs).Perm (squares ys) := by
  unfold squares
  rw [hmean]
  exact h.map _

/-- Measurements whose mean and deviation do not depend on their order. -/
structure Steady (xs : List Binary64) : Prop where
  values : Binary64.Steady xs
  squares : Binary64.Steady (squares xs)

/-- Two measurements can change places. -/
theorem steady_of_length (h : xs.length ≤ 2) : Steady xs where
  values := .inl h
  squares := .inl (by rwa [Stats.squares, List.length_map])

theorem ofList_eq_of_perm (hxs : Steady xs) (h : xs.Perm ys) : ofList xs = ofList ys := by
  have hmean := meanOf_eq_of_perm hxs.values h
  have hstdev : stdevOf xs = stdevOf ys := by
    show (if xs.isEmpty then _ else (Binary64.sum (Stats.squares xs) / _).sqrt) =
      if ys.isEmpty then _ else (Binary64.sum (Stats.squares ys) / _).sqrt
    rw [h.isEmpty_eq, h.length_eq, hxs.squares.sum_eq_of_perm (squares_perm hmean h)]
  rw [ofList, ofList, hmean, medianOf_eq_of_perm h, hstdev]

/-! ## Means in any order -/

/-- The exact mean, in units. -/
def exactMean (xs : List Binary64) : ℚ := Binary64.total xs / xs.length

/-- Measurements that are not negative, and far enough from the smallest and the largest doubles for
every rounding of their mean to be relative. -/
structure Moderate (xs : List Binary64) : Prop where
  amounts : ∀ x ∈ xs, x.IsAmount
  length : xs.length < 1 <<< 53
  lower : Binary64.smallestNormal * xs.length ≤
    Binary64.total xs * (1 - Binary64.roundoff) ^ xs.length
  upper : Binary64.total xs * (1 + Binary64.roundoff) ^ xs.length < Binary64.limit

instance (xs : List Binary64) : Decidable (Moderate xs) :=
  decidable_of_iff ((∀ x ∈ xs, x.IsAmount) ∧ xs.length < 1 <<< 53 ∧
      Binary64.smallestNormal * xs.length ≤
        Binary64.total xs * (1 - Binary64.roundoff) ^ xs.length ∧
      Binary64.total xs * (1 + Binary64.roundoff) ^ xs.length < Binary64.limit)
    ⟨fun ⟨hamounts, hlength, hlower, hupper⟩ => ⟨hamounts, hlength, hlower, hupper⟩,
      fun h => ⟨h.amounts, h.length, h.lower, h.upper⟩⟩

theorem Moderate.perm (hxs : Moderate xs) (h : xs.Perm ys) : Moderate ys where
  amounts y hy := hxs.amounts y (h.mem_iff.2 hy)
  length := h.length_eq ▸ hxs.length
  lower := by
    rw [← h.length_eq, ← Binary64.total_eq_of_perm h]
    exact hxs.lower
  upper := by
    rw [← h.length_eq, ← Binary64.total_eq_of_perm h]
    exact hxs.upper

/-- A mean has one rounding for each addition, and one for the division. -/
theorem near_meanOf (hne : xs ≠ []) (hxs : Moderate xs) :
    Binary64.Near (xs.length + 1) (exactMean xs) (meanOf xs) := by
  have hpos : 0 < xs.length := List.length_pos_of_ne_nil hne
  have hempty : ¬ xs.isEmpty := by rwa [List.isEmpty_iff]
  unfold meanOf
  rw [if_neg hempty]
  exact (Binary64.near_sum hxs.amounts hxs.upper).div hpos hxs.length hxs.lower

/-- The means in two orders compare alike with what is out of the reach of rounding. -/
theorem le_meanOf_iff_of_perm {f : Binary64} (hne : xs ≠ []) (hxs : Moderate xs)
    (hf : Binary64.Apart (xs.length + 1) (exactMean xs) f) (h : xs.Perm ys) :
    f ≤ meanOf xs ↔ f ≤ meanOf ys := by
  have hys : ys ≠ [] := by
    rintro rfl
    exact hne h.eq_nil
  have hy := near_meanOf hys (hxs.perm h)
  rw [exactMean, ← h.length_eq, ← Binary64.total_eq_of_perm h] at hy
  exact (near_meanOf hne hxs).le_iff_le hy hf

end PerfGate.Stats
