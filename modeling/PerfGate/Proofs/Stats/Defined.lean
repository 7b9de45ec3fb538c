import PerfGate.Proofs.Binary64.Defined
import PerfGate.Proofs.Stats.Order

/-!
# Stats — summaries are numbers

The summary of finite measurements holds no NaN, however large they are, and its deviation is not
negative (`ofList_defined`). It can hold infinities: a sum that is too large has an infinite mean,
and then every distance from the mean is infinite, and the deviation with them
(`stdevOf_of_infinite`). This is the one case in which the ratio of deviation to mean is no number
(`variation_eq_nan_iff`).
-/

namespace PerfGate.Stats

open Binary64

/-- A summary of numbers, infinite ones included. -/
structure Defined (s : Stats) : Prop where
  mean : s.mean ≠ .nan
  median : s.median ≠ .nan
  stdev : s.stdev ≠ .nan
  stdev_nonneg : .zero false ≤ s.stdev

variable {xs : List Binary64}

/-! ## Mean and deviation -/

theorem meanOf_eq (hne : xs ≠ []) : meanOf xs = sum xs / .ofNat xs.length :=
  if_neg (by rwa [List.isEmpty_iff])

theorem stdevOf_eq (hne : xs ≠ []) :
    stdevOf xs = (sum (squares xs) / .ofNat xs.length).sqrt :=
  if_neg (by rwa [List.isEmpty_iff])

/-- The number of measurements that were taken, as a double. -/
theorem exists_count (hne : xs ≠ []) (hlen : xs.length < UInt64.size) :
    ∃ n hn, Binary64.ofNat xs.length = .finite false n hn ∧ 0 < n :=
  exists_ofNat_eq (List.length_pos_of_ne_nil hne) hlen

theorem meanOf_ne_nan (hxs : ∀ x ∈ xs, x.isFinite) (hlen : xs.length < UInt64.size) :
    meanOf xs ≠ .nan := by
  by_cases hne : xs = []
  · subst hne
    exact ne_nan_of_isFinite (x := .zero false) rfl
  · obtain ⟨n, hn, hcount, hpos⟩ := exists_count hne hlen
    rw [meanOf_eq hne, hcount]
    exact div_ne_nan hpos (sum_ne_nan hxs)

/-- Finite measurements are at a distance from their mean that is a number, so no square is
negative. -/
theorem zero_le_of_mem_squares (hxs : ∀ x ∈ xs, x.isFinite) (hlen : xs.length < UInt64.size) :
    ∀ y ∈ squares xs, .zero false ≤ y := by
  intro y hy
  obtain ⟨x, hx, rfl⟩ := List.mem_map.1 hy
  exact zero_le_mul_self (sub_ne_nan (hxs x hx) (meanOf_ne_nan hxs hlen))

theorem zero_le_stdevOf (hxs : ∀ x ∈ xs, x.isFinite) (hlen : xs.length < UInt64.size) :
    .zero false ≤ stdevOf xs := by
  by_cases hne : xs = []
  · subst hne
    exact zero_le_iff.2 ⟨0, rfl, Int.le_refl 0⟩
  · obtain ⟨n, hn, hcount, hpos⟩ := exists_count hne hlen
    rw [stdevOf_eq hne, hcount]
    exact zero_le_sqrt (zero_le_div hpos (zero_le_sum (zero_le_of_mem_squares hxs hlen)))

/-! ## Median -/

/-- Each place of a sorted list holds one of the measurements. -/
theorem isFinite_getD_sorted (hxs : ∀ x ∈ xs, x.isFinite) (i : Nat) :
    ((sorted xs)[i]?.getD (.zero false)).isFinite := by
  cases hget : (sorted xs)[i]? with
  | none => rfl
  | some x => exact hxs x ((sorted_perm xs).mem_iff.1 (List.mem_of_getElem? hget))

/-- One half in units. -/
theorem exists_half_eq :
    ∃ h, Binary64.ofRatio false 1 2 = .finite false (1 <<< 1073) h := by
  have hhalf : Representable (1 <<< 1073) := representable_shiftLeft (by decide)
  have hperOne : 1 * perOne = 1 <<< 1073 * 2 := by
    rw [Nat.one_mul, perOne, shiftLeft_add 1073 1]
    rfl
  have hunits : roundUnits (1 * perOne) 2 = 1 <<< 1073 :=
    roundUnits_eq hhalf Nat.two_pos hperOne
  have hlt : roundUnits (1 * perOne) 2 < limit := by
    rw [hunits]
    exact hhalf.1
  have heq : Binary64.ofRatio false 1 2 = .finite false _ (representable_roundUnits hlt) :=
    ofUnits_of_lt hlt
  refine ⟨hhalf, ?_⟩
  rw [heq]
  congr 1

theorem medianOf_ne_nan (hxs : ∀ x ∈ xs, x.isFinite) : medianOf xs ≠ .nan := by
  unfold medianOf
  simp only
  split
  · exact ne_nan_of_isFinite (x := .zero false) rfl
  · split
    · exact ne_nan_of_isFinite (isFinite_getD_sorted hxs _)
    · -- the sum of the middle two may be infinite, and half of it then is
      obtain ⟨_, hhalf⟩ := exists_half_eq
      rw [hhalf]
      exact mul_ne_nan (shiftLeft_pos 1073) (add_ne_nan (ne_nan_of_isFinite (isFinite_getD_sorted hxs _))
        (isFinite_getD_sorted hxs _))

/-- **Summaries of finite measurements are numbers.** -/
theorem ofList_defined (hxs : ∀ x ∈ xs, x.isFinite) (hlen : xs.length < UInt64.size) :
    (ofList xs).Defined where
  mean := meanOf_ne_nan hxs hlen
  median := medianOf_ne_nan hxs
  stdev := ne_nan_of_zero_le (zero_le_stdevOf hxs hlen)
  stdev_nonneg := zero_le_stdevOf hxs hlen

/-! ## Infinite means -/

/-- An infinite mean is at an infinite distance from every measurement. -/
theorem stdevOf_of_infinite (hxs : ∀ x ∈ xs, x.isFinite) (hlen : xs.length < UInt64.size)
    (hmean : meanOf xs = .infinite false) : stdevOf xs = .infinite false := by
  have hne : xs ≠ [] := by
    rintro rfl
    cases hmean
  have hsquares : ∀ y ∈ squares xs, y = .infinite false := by
    intro y hy
    obtain ⟨x, hx, rfl⟩ := List.mem_map.1 hy
    rw [hmean, sub_infinite (hxs x hx)]
    rfl
  have hsquares_ne : squares xs ≠ [] := by simpa [squares] using hne
  obtain ⟨n, hn, hcount, hpos⟩ := exists_count hne hlen
  rw [stdevOf_eq hne, sum_eq_infinite hsquares_ne hsquares, hcount]
  rfl

/-- Measurements with a finite sum have a finite mean. -/
theorem meanOf_isFinite (hsum : (sum xs).isFinite) : (meanOf xs).isFinite := by
  by_cases hne : xs = []
  · subst hne
    rfl
  · rw [meanOf_eq hne]
    exact isFinite_div hsum (atLeastOne_ofNat (List.length_pos_of_ne_nil hne))

/-- The ratio of deviation to mean is no number exactly if the mean is infinite. -/
theorem variation_eq_nan_iff (hxs : ∀ x ∈ xs, x.isFinite) (hlen : xs.length < UInt64.size)
    (hmean : .zero false < meanOf xs) :
    stdevOf xs / meanOf xs = .nan ↔ meanOf xs = .infinite false := by
  rw [div_eq_nan_iff (zero_le_stdevOf hxs hlen) hmean]
  constructor
  · exact And.right
  · intro hinfinite
    exact ⟨stdevOf_of_infinite hxs hlen hinfinite, hinfinite⟩

end PerfGate.Stats
