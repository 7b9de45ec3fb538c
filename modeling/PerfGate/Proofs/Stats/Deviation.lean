import PerfGate.Proofs.Stats.Range

/-!
# Stats — equal measurements

Measurements that are all equal deviate from their mean only if the mean is not what they are, and
then by its roundings: the deviation is zero if the mean is exact (`stdevOf_of_units_eq`), and within
`deviationSlack` in any case (`stdevOf_le`). With the bounds on median and mean this is what the range
of the measurements says about their summary (`ofList_within`).
-/

namespace PerfGate.Stats

open Binary64

variable {lo hi : Binary64} {xs : List Binary64}

/-! ## Exact means -/

/-- The square of a distance of nothing. -/
theorem mul_self_eq_zero_of_units {x : Binary64} (hx : x.isFinite) (h : x.units = 0) :
    x * x = .zero false := by
  cases x with
  | nan => cases hx
  | infinite s => cases hx
  | finite s n hn =>
      have hzero : n = 0 := by
        rw [← natAbs_signed s n]
        exact Int.natAbs_eq_zero.2 h
      subst hzero
      cases s <;> rfl

theorem sum_zeros {ys : List Binary64} (hne : ys ≠ []) (hys : ∀ y ∈ ys, y = .zero false) :
    sum ys = .zero false := by
  induction ys using List.reverseRecOn with
  | nil => exact absurd rfl hne
  | append_singleton ys y ih =>
      rw [List.forall_mem_append, List.forall_mem_singleton] at hys
      obtain ⟨hys, rfl⟩ := hys
      rw [sum_concat]
      by_cases hnil : ys = []
      · subst hnil
        rfl
      · rw [ih hnil hys]
        rfl

/-- **Equal measurements do not deviate from a mean that is what they are.** -/
theorem stdevOf_of_units_eq (hne : xs ≠ []) (hlen : xs.length < UInt64.size)
    (hxs : ∀ x ∈ xs, x.isFinite ∧ x.units = (meanOf xs).units) (hmean : (meanOf xs).isFinite) :
    stdevOf xs = .zero false := by
  have hsquares : ∀ y ∈ squares xs, y = .zero false := by
    intro y hy
    obtain ⟨x, hx, rfl⟩ := List.mem_map.1 hy
    obtain ⟨hfinite, hunits⟩ := hxs x hx
    have hplace := place?_sub hfinite hmean
    rw [hunits, Int.sub_self, nearest_zero Nat.one_pos] at hplace
    obtain ⟨hdistance, hzero⟩ := units_of_place?_clamp hplace limit_pos
    exact mul_self_eq_zero_of_units hdistance hzero
  have hsquares_ne : squares xs ≠ [] := by simpa [squares] using hne
  obtain ⟨n, hn, hcount, hpos⟩ := exists_count hne hlen
  have hdiv : Binary64.zero false / finite false n hn = .zero false := by
    rw [zero, finite_div_finite representable_zero hn hpos, Nat.zero_mul, ofUnits_zero hpos]
    rfl
  rw [stdevOf_eq hne, sum_zeros hsquares_ne hsquares, hcount, hdiv]
  rfl

/-! ## Rounded means -/

/-- The root of a unit, in units. -/
def rootUnit : Nat := 1 <<< 537

theorem perOne_eq_sq : perOne = rootUnit ^ 2 := by
  rw [Nat.pow_two, rootUnit, ← shiftLeft_add]
  rfl

/-- How far the deviation of `n` equal measurements can be from zero, in units: what their mean can be
off by and the root of a unit, and the roundings of both. -/
def deviationSlack (n : Nat) (lo hi : Binary64) : ℚ :=
  (1 + roundoff) ^ (n + 6) * (meanSlack n lo hi + rootUnit + 1)

theorem meanSlack_nonneg (n : Nat) (lo hi : Binary64) : 0 ≤ meanSlack n lo hi := by
  have hgrow : (1 : ℚ) ≤ (1 + roundoff) ^ (n + 3) :=
    one_le_pow₀ (le_add_of_nonneg_right roundoff_pos.le)
  have := mul_nonneg (sub_nonneg.2 hgrow) (Nat.cast_nonneg (reach lo hi) : (0 : ℚ) ≤ reach lo hi)
  unfold meanSlack
  linarith

theorem stdevOf_eq_sqrt_meanOf (hne : xs ≠ []) : stdevOf xs = (meanOf (squares xs)).sqrt := by
  have hsquares_ne : squares xs ≠ [] := by simpa [squares] using hne
  rw [stdevOf_eq hne, meanOf_eq hsquares_ne, squares, List.length_map]

/-- The square of a rounded distance. -/
theorem units_square_le {x m : Binary64} {slack : ℚ} (hx : x.isFinite) (hm : m.isFinite)
    (hfinite : ((x - m) * (x - m)).isFinite) (hslack : |(m.units : ℚ) - x.units| ≤ slack) :
    (((x - m) * (x - m)).units : ℚ) * perOne ≤
      (1 + roundoff) ^ 3 * slack ^ 2 + perOne / 2 := by
  have hdistance := isFinite_of_mul_self hfinite
  have hone : (0 : ℚ) < perOne := by exact_mod_cast perOne_pos
  have hgrow := one_add_roundoff_pos
  have hsub : |((x - m).units : ℚ)| ≤ (1 + roundoff) * slack := by
    have hround := abs_nearest_one_sub_le (x.units - m.units)
    rw [← units_eq_of_place? (place?_sub hx hm) hdistance] at hround
    have hexact : |((x.units - m.units : Int) : ℚ)| ≤ slack := by
      rwa [Int.cast_sub, abs_sub_comm]
    calc |((x - m).units : ℚ)|
        ≤ |((x - m).units : ℚ) - (x.units - m.units : Int)| + |((x.units - m.units : Int) : ℚ)| := by
          simpa using abs_add_le (((x - m).units : ℚ) - (x.units - m.units : Int))
            ((x.units - m.units : Int) : ℚ)
      _ ≤ roundoff * |((x.units - m.units : Int) : ℚ)| + |((x.units - m.units : Int) : ℚ)| := by
          linarith
      _ = (1 + roundoff) * |((x.units - m.units : Int) : ℚ)| := by ring
      _ ≤ (1 + roundoff) * slack := mul_le_mul_of_nonneg_left hexact hgrow.le
  have hsquare : ((x - m).units : ℚ) ^ 2 ≤ ((1 + roundoff) * slack) ^ 2 := by
    rw [← sq_abs]
    exact pow_le_pow_left₀ (abs_nonneg _) hsub 2
  have hround := (abs_le.1 (abs_nearest_sub_le ((x - m).units * (x - m).units) perOne_pos)).2
  rw [← units_eq_of_place? (place?_mul hdistance hdistance) hfinite] at hround
  have hquot : (((x - m).units * (x - m).units : Int) : ℚ) / perOne * perOne =
      ((x - m).units : ℚ) ^ 2 := by
    rw [div_mul_cancel₀ _ hone.ne']
    push_cast
    ring
  have hnonneg : (0 : ℚ) ≤ (((x - m).units * (x - m).units : Int) : ℚ) / perOne := by
    apply div_nonneg _ hone.le
    exact_mod_cast mul_self_nonneg _
  rw [abs_of_nonneg hnonneg] at hround
  calc (((x - m) * (x - m)).units : ℚ) * perOne
      ≤ ((1 + roundoff) * ((((x - m).units * (x - m).units : Int) : ℚ) / perOne) + 1 / 2) *
          perOne := mul_le_mul_of_nonneg_right (by linarith) hone.le
    _ = (1 + roundoff) * ((x - m).units : ℚ) ^ 2 + perOne / 2 := by
        rw [add_mul, mul_assoc, hquot]
        ring
    _ ≤ (1 + roundoff) * ((1 + roundoff) * slack) ^ 2 + perOne / 2 := by
        have := mul_le_mul_of_nonneg_left hsquare hgrow.le
        linarith
    _ = (1 + roundoff) ^ 3 * slack ^ 2 + perOne / 2 := by ring

/-- Distances of equal measurements from the mean have equal squares. -/
theorem spans_squares (h : Spans lo hi xs) (heq : lo.units = hi.units)
    (hmean : (meanOf xs).isFinite) (hfinite : ∀ y ∈ squares xs, y.isFinite) :
    Spans ((lo - meanOf xs) * (lo - meanOf xs)) ((lo - meanOf xs) * (lo - meanOf xs))
      (squares xs) := by
  have hmem : (lo - meanOf xs) * (lo - meanOf xs) ∈ squares xs := List.mem_map_of_mem h.lo_mem
  have hunits : ∀ y ∈ squares xs, y.units = ((lo - meanOf xs) * (lo - meanOf xs)).units := by
    intro y hy
    have hyfinite := hfinite y hy
    obtain ⟨x, hx, rfl⟩ := List.mem_map.1 hy
    have hbounds := h.units_bounds hx
    have hxlo : x.units = lo.units := by omega
    have hdx := isFinite_of_mul_self hyfinite
    have hdlo := isFinite_of_mul_self (hfinite _ hmem)
    rw [units_eq_of_place? (place?_mul hdx hdx) hyfinite,
      units_eq_of_place? (place?_mul hdlo hdlo) (hfinite _ hmem),
      units_eq_of_place? (place?_sub (h.isFinite x hx) hmean) hdx,
      units_eq_of_place? (place?_sub h.isFinite_lo hmean) hdlo, hxlo]
  refine ⟨hfinite, hmem, hmem, fun y hy => ?_, fun y hy => ?_⟩
  · rw [le_iff_units_le (hfinite _ hmem) (hfinite y hy), hunits y hy]
  · rw [le_iff_units_le (hfinite y hy) (hfinite _ hmem), hunits y hy]

theorem zero_le_meanOf_squares (hne : xs ≠ []) (hxs : ∀ x ∈ xs, x.isFinite)
    (hlen : xs.length < UInt64.size) : .zero false ≤ meanOf (squares xs) := by
  have hsquares_ne : squares xs ≠ [] := by simpa [squares] using hne
  obtain ⟨n, hn, hcount, hpos⟩ := exists_count hne hlen
  rw [meanOf_eq hsquares_ne, squares, List.length_map, hcount]
  exact zero_le_div hpos (zero_le_sum (zero_le_of_mem_squares hxs hlen))

/-- The mean square of the distances of equal measurements from their mean. -/
theorem variance_le (h : Spans lo hi xs) (heq : lo.units = hi.units)
    (hlen : xs.length < UInt64.size) (hmean : (meanOf xs).isFinite)
    (hfinite : (meanOf (squares xs)).isFinite) :
    ((meanOf (squares xs)).units : ℚ) * perOne ≤
      (1 + roundoff) ^ (xs.length + 6) * (meanSlack xs.length lo hi ^ 2 + perOne) := by
  have hone : (0 : ℚ) < perOne := by exact_mod_cast perOne_pos
  have hgrow : (1 : ℚ) ≤ 1 + roundoff := le_add_of_nonneg_right roundoff_pos.le
  have hlength : (squares xs).length = xs.length := List.length_map _
  have hsquares_ne : squares xs ≠ [] := by simpa [squares] using h.ne_nil
  have hsize : (squares xs).length < UInt64.size := by rwa [hlength]
  have hsquares := isFinite_of_sum (isFinite_sum_of_meanOf hsquares_ne hsize hfinite)
  have hspans := spans_squares h heq hmean hsquares
  have hexact : exactMean xs = lo.units := by
    obtain ⟨hlower, hupper⟩ := h.exactMean_bounds
    rw [← heq] at hupper
    exact le_antisymm hupper hlower
  have hslack := abs_meanOf_sub_le h hlen hmean
  rw [hexact] at hslack
  have hsquare := units_square_le h.isFinite_lo hmean hspans.isFinite_lo hslack
  have hupper := (meanOf_bounds hspans hsize hfinite).2
  have hnonneg : 0 ≤ ((lo - meanOf xs) * (lo - meanOf xs)).units := by
    have hd := isFinite_of_mul_self hspans.isFinite_lo
    rw [units_eq_of_place? (place?_mul hd hd) hspans.isFinite_lo]
    exact nearest_nonneg (mul_self_nonneg _) perOne
  rw [hlength, meanSlack, reach, max_self] at hupper
  generalize ((lo - meanOf xs) * (lo - meanOf xs)).units = square at *
  have habs : ((square.natAbs : Nat) : ℚ) = square := by
    rw [← Int.cast_natCast, Int.natAbs_of_nonneg hnonneg]
  rw [habs] at hupper
  have hpow : (0 : ℚ) ≤ (1 + roundoff) ^ (xs.length + 3) := by positivity
  have hpow' : (1 : ℚ) ≤ (1 + roundoff) ^ (xs.length + 6) := one_le_pow₀ hgrow
  have hpow'' : (1 + roundoff) ^ (xs.length + 3) ≤ (1 + roundoff) ^ (xs.length + 6) :=
    pow_le_pow_right₀ hgrow (by omega)
  generalize (perOne : ℚ) = one at *
  calc ((meanOf (squares xs)).units : ℚ) * one
      ≤ (square + (((1 + roundoff) ^ (xs.length + 3) - 1) * square + 1 / 2)) * one :=
        mul_le_mul_of_nonneg_right hupper hone.le
    _ = (1 + roundoff) ^ (xs.length + 3) * (square * one) + one / 2 := by ring
    _ ≤ (1 + roundoff) ^ (xs.length + 3) *
          ((1 + roundoff) ^ 3 * meanSlack xs.length lo hi ^ 2 + one / 2) + one / 2 := by
        have := mul_le_mul_of_nonneg_left hsquare hpow
        linarith
    _ = (1 + roundoff) ^ (xs.length + 6) * meanSlack xs.length lo hi ^ 2 +
          ((1 + roundoff) ^ (xs.length + 3) + 1) * (one / 2) := by ring
    _ ≤ (1 + roundoff) ^ (xs.length + 6) * meanSlack xs.length lo hi ^ 2 +
          ((1 + roundoff) ^ (xs.length + 6) + (1 + roundoff) ^ (xs.length + 6)) *
            (one / 2) := by
        gcongr
    _ = (1 + roundoff) ^ (xs.length + 6) * (meanSlack xs.length lo hi ^ 2 + one) := by ring

/-- **Equal measurements deviate by roundings only.** -/
theorem stdevOf_le (h : Spans lo hi xs) (heq : lo.units = hi.units)
    (hlen : xs.length < UInt64.size) (hmean : (meanOf xs).isFinite)
    (hfinite : (stdevOf xs).isFinite) :
    ((stdevOf xs).units : ℚ) ≤ deviationSlack xs.length lo hi := by
  rw [stdevOf_eq_sqrt_meanOf h.ne_nil] at hfinite ⊢
  have hvariance := variance_le h heq hlen hmean (isFinite_of_sqrt hfinite)
  have hslack := meanSlack_nonneg xs.length lo hi
  have hgrow : (1 : ℚ) ≤ 1 + roundoff := le_add_of_nonneg_right roundoff_pos.le
  have hroundoff := roundoff_pos
  have hroot : (perOne : ℚ) = (rootUnit : ℚ) ^ 2 := by exact_mod_cast perOne_eq_sq
  have hbound : ((meanOf (squares xs)).units : ℚ) * perOne ≤
      ((1 + roundoff) ^ (xs.length + 5) * (meanSlack xs.length lo hi + rootUnit)) ^ 2 := by
    refine hvariance.trans ?_
    have hpow : (1 + roundoff) ^ (xs.length + 6) ≤ (1 + roundoff) ^ (2 * (xs.length + 5)) :=
      pow_le_pow_right₀ hgrow (by omega)
    rw [hroot]
    generalize meanSlack xs.length lo hi = slack at *
    have hsquare : slack ^ 2 + (rootUnit : ℚ) ^ 2 ≤ (slack + rootUnit) ^ 2 := by
      rw [add_sq]
      have : 0 ≤ 2 * slack * (rootUnit : ℚ) := by positivity
      linarith
    calc (1 + roundoff) ^ (xs.length + 6) * (slack ^ 2 + (rootUnit : ℚ) ^ 2)
        ≤ (1 + roundoff) ^ (2 * (xs.length + 5)) * (slack + rootUnit) ^ 2 := by gcongr
      _ = ((1 + roundoff) ^ (xs.length + 5) * (slack + rootUnit)) ^ 2 := by
          rw [mul_pow, ← pow_mul, Nat.mul_comm]
  have hle := units_sqrt_le (zero_le_meanOf_squares h.ne_nil h.isFinite hlen) hfinite
    (by positivity) hbound
  refine hle.trans ?_
  have hlast : 1 + roundoff ≤ (1 + roundoff) ^ (xs.length + 6) := le_self_pow₀ hgrow (by omega)
  unfold deviationSlack
  generalize meanSlack xs.length lo hi = slack at *
  calc (1 + roundoff) * ((1 + roundoff) ^ (xs.length + 5) * (slack + rootUnit) + 1)
      = (1 + roundoff) ^ (xs.length + 6) * (slack + rootUnit) + (1 + roundoff) := by ring
    _ ≤ (1 + roundoff) ^ (xs.length + 6) * (slack + rootUnit) +
          (1 + roundoff) ^ (xs.length + 6) := by linarith
    _ = (1 + roundoff) ^ (xs.length + 6) * (slack + rootUnit + 1) := by ring

/-! ## Summaries -/

/-- A finite median lies in the range of the measurements, and it is finite if no magnitude is beyond
`2 ^ 1023`. A finite mean lies in the range too if its sum is not rounded, and is out of it by its
roundings at most in any case. If all measurements are equal, a finite median is what they are, and so
is the mean if the sum is not rounded. If the mean is what they are, the deviation is zero, and
otherwise it is within the roundings. -/
theorem ofList_within (h : Spans lo hi xs) (hlen : xs.length < UInt64.size) :
    ((ofList xs).median.isFinite → lo ≤ (ofList xs).median ∧ (ofList xs).median ≤ hi) ∧
    ((∀ x ∈ xs, x.units.natAbs < 1 <<< 2097) → (ofList xs).median.isFinite) ∧
    ((ofList xs).mean.isFinite → lo.units - meanSlack xs.length lo hi ≤ (ofList xs).mean.units ∧
      (ofList xs).mean.units ≤ hi.units + meanSlack xs.length lo hi) ∧
    ((ofList xs).mean.isFinite → Binary64.Steady xs → xs.length < 1 <<< 53 →
      lo ≤ (ofList xs).mean ∧ (ofList xs).mean ≤ hi) ∧
    ((∀ x ∈ xs, x.IsAddable) → xs.length < 1 <<< 53 → (ofList xs).mean.isFinite) ∧
    (lo.units = hi.units →
      ((ofList xs).median.isFinite → (ofList xs).median.units = lo.units) ∧
      ((ofList xs).mean.isFinite → Binary64.Steady xs → xs.length < 1 <<< 53 →
        (ofList xs).mean.units = lo.units) ∧
      ((ofList xs).mean.isFinite → (ofList xs).mean.units = lo.units →
        (ofList xs).stdev = .zero false) ∧
      ((ofList xs).mean.isFinite → (ofList xs).stdev.isFinite →
        (ofList xs).stdev.units ≤ deviationSlack xs.length lo hi)) := by
  refine ⟨fun hfinite => h.le_and_le hfinite (medianOf_bounds h hfinite),
    isFinite_medianOf h.ne_nil h.isFinite, meanOf_bounds h hlen, ?_, ?_, ?_⟩
  · intro hfinite hsteady hfew
    exact h.le_and_le hfinite (meanOf_bounds_of_steady h hsteady hfew hfinite)
  · intro haddable hfew
    exact meanOf_isFinite (sum_of_addable haddable hfew).1
  · intro heq
    refine ⟨?_, ?_, ?_, stdevOf_le h heq hlen⟩
    · intro hfinite
      have hbounds := medianOf_bounds h hfinite
      rw [← heq] at hbounds
      exact Int.le_antisymm hbounds.2 hbounds.1
    · intro hfinite hsteady hfew
      have hbounds := meanOf_bounds_of_steady h hsteady hfew hfinite
      rw [← heq] at hbounds
      exact Int.le_antisymm hbounds.2 hbounds.1
    · intro hfinite hmean
      refine stdevOf_of_units_eq h.ne_nil hlen (fun x hx => ⟨h.isFinite x hx, ?_⟩) hfinite
      have hbounds := h.units_bounds hx
      exact (Int.le_antisymm (by omega) hbounds.1).trans hmean.symm

/-- Measurements with an exact sum. -/
def fourFives : List Binary64 := List.replicate 4 (.ofNat 5)

theorem fourFives_within : Spans (.ofNat 5) (.ofNat 5) fourFives ∧
    (ofList fourFives).median.units = (Binary64.ofNat 5).units ∧
    (ofList fourFives).mean.units = (Binary64.ofNat 5).units ∧
    (ofList fourFives).stdev = .zero false := by
  have hspans : Spans (.ofNat 5) (.ofNat 5) fourFives := by decide +kernel
  have hsteady : Binary64.Steady fourFives :=
    .inr ⟨1074, (by decide +kernel : OnGrid 1074 fourFives)⟩
  have haddable : ∀ x ∈ fourFives, x.IsAddable := by
    intro x hx
    rw [List.eq_of_mem_replicate hx]
    exact ⟨by decide +kernel, by decide +kernel⟩
  have hsmall : ∀ x ∈ fourFives, x.units.natAbs < 1 <<< 2097 := fun x hx =>
    Nat.lt_of_le_of_lt (haddable x hx).2 (shiftLeft_lt (by decide))
  obtain ⟨-, hmedian, -, -, hmean, hequal⟩ := ofList_within hspans (by decide)
  obtain ⟨hmedianEq, hmeanEq, hstdev, -⟩ := hequal rfl
  have hfinite := hmean haddable (by decide)
  have hexact := hmeanEq hfinite hsteady (by decide)
  exact ⟨hspans, hmedianEq (hmedian hsmall), hexact, hstdev hfinite hexact⟩

/-- Measurements with a rounded sum. -/
def threeTenths : List Binary64 := List.replicate 3 (.ofRatio false 1 10)

/-- Measurements with an infinite sum. -/
def largePair : List Binary64 := List.replicate 2 (.ofNat (17 * 10 ^ 307))

/-- The mean of equal measurements can be beyond them, and then they deviate from it; and a sum can be
infinite. -/
theorem threeTenths_outside :
    (Spans (.ofRatio false 1 10) (.ofRatio false 1 10) threeTenths ∧
      .ofRatio false 1 10 < (ofList threeTenths).mean ∧
      (ofList threeTenths).stdev ≠ .zero false) ∧
    Spans (.ofNat (17 * 10 ^ 307)) (.ofNat (17 * 10 ^ 307)) largePair ∧
      .ofNat (17 * 10 ^ 307) < (ofList largePair).median ∧
      .ofNat (17 * 10 ^ 307) < (ofList largePair).mean := by
  have hmedian : (ofList largePair).median = .infinite false := by
    have hsorted : sorted largePair = largePair := sorted_eq_self (by decide +kernel)
    show medianOf largePair = _
    unfold medianOf
    rw [hsorted]
    decide +kernel
  refine ⟨⟨?_, ?_, ?_⟩, ?_, ?_, ?_⟩
  · decide +kernel
  · decide +kernel
  · decide +kernel
  · decide +kernel
  · rw [hmedian]
    decide +kernel
  · decide +kernel

end PerfGate.Stats
