import Mathlib.Tactic.FieldSimp
import PerfGate.Proofs.Binary64.Between
import PerfGate.Proofs.Stats.Defined

/-!
# Stats — summaries and the range of the measurements

The median of finite measurements lies between the least and the greatest of them, unless the sum of
the middle two is infinite. The mean is summed term by term, so each addition can move it. It lies in
the range if nothing is rounded on the way, and otherwise it is out of it by the roundings that there
are (`meanSlack`) at most. Equal measurements have no deviation if their mean is what they are.
-/

namespace PerfGate.Stats

open Binary64

/-- The least and the greatest of a list of finite doubles. -/
structure Spans (lo hi : Binary64) (xs : List Binary64) : Prop where
  isFinite : ∀ x ∈ xs, x.isFinite
  lo_mem : lo ∈ xs
  hi_mem : hi ∈ xs
  lo_le : ∀ x ∈ xs, lo ≤ x
  le_hi : ∀ x ∈ xs, x ≤ hi

instance (lo hi : Binary64) (xs : List Binary64) : Decidable (Spans lo hi xs) :=
  decidable_of_iff ((∀ x ∈ xs, x.isFinite) ∧ lo ∈ xs ∧ hi ∈ xs ∧ (∀ x ∈ xs, lo ≤ x) ∧
      ∀ x ∈ xs, x ≤ hi)
    ⟨fun ⟨hfinite, hlo, hhi, hlower, hupper⟩ => ⟨hfinite, hlo, hhi, hlower, hupper⟩,
      fun h => ⟨h.isFinite, h.lo_mem, h.hi_mem, h.lo_le, h.le_hi⟩⟩

variable {lo hi : Binary64} {xs : List Binary64}

namespace Spans

theorem ne_nil (h : Spans lo hi xs) : xs ≠ [] := List.ne_nil_of_mem h.lo_mem

theorem isFinite_lo (h : Spans lo hi xs) : lo.isFinite := h.isFinite lo h.lo_mem

theorem isFinite_hi (h : Spans lo hi xs) : hi.isFinite := h.isFinite hi h.hi_mem

theorem units_bounds (h : Spans lo hi xs) {x : Binary64} (hx : x ∈ xs) :
    lo.units ≤ x.units ∧ x.units ≤ hi.units :=
  ⟨(le_iff_units_le h.isFinite_lo (h.isFinite x hx)).1 (h.lo_le x hx),
    (le_iff_units_le (h.isFinite x hx) h.isFinite_hi).1 (h.le_hi x hx)⟩

/-- What lies in the range in units lies in it. -/
theorem le_and_le (h : Spans lo hi xs) {x : Binary64} (hx : x.isFinite)
    (hunits : lo.units ≤ x.units ∧ x.units ≤ hi.units) : lo ≤ x ∧ x ≤ hi :=
  ⟨(le_iff_units_le h.isFinite_lo hx).2 hunits.1, (le_iff_units_le hx h.isFinite_hi).2 hunits.2⟩

end Spans

/-! ## Median -/

/-- Each place of the sorted list that is looked at holds one of the measurements. -/
theorem getD_sorted_mem {i : Nat} (hi : i < xs.length) :
    (sorted xs)[i]?.getD (.zero false) ∈ xs := by
  have hlt : i < (sorted xs).length := by rwa [(sorted_perm xs).length_eq]
  rw [List.getElem?_eq_getElem hlt, Option.getD_some]
  exact (sorted_perm xs).mem_iff.1 (List.getElem_mem hlt)

/-- The median is one of the measurements, or half the sum of two. -/
theorem medianOf_cases (hne : xs ≠ []) : medianOf xs ∈ xs ∨
    ∃ x ∈ xs, ∃ y ∈ xs, medianOf xs = Binary64.ofRatio false 1 2 * (x + y) := by
  have hpos := List.length_pos_of_ne_nil hne
  have hlength : (sorted xs).length = xs.length := (sorted_perm xs).length_eq
  have hsorted : ¬ (sorted xs).isEmpty := by
    rw [List.isEmpty_iff, ← List.length_eq_zero_iff, hlength]
    omega
  unfold medianOf
  simp only [hlength]
  rw [if_neg hsorted]
  split
  · exact .inl (getD_sorted_mem (by omega))
  · exact .inr ⟨_, getD_sorted_mem (by omega), _, getD_sorted_mem (by omega), rfl⟩

/-- Half a finite sum lies between the terms. -/
theorem half_add_bounds {x y : Binary64} (h : Spans lo hi xs) (hx : x ∈ xs) (hy : y ∈ xs)
    (hfinite : (Binary64.ofRatio false 1 2 * (x + y)).isFinite) :
    lo.units ≤ (Binary64.ofRatio false 1 2 * (x + y)).units ∧
      (Binary64.ofRatio false 1 2 * (x + y)).units ≤ hi.units := by
  obtain ⟨hlox, hxhi⟩ := h.units_bounds hx
  obtain ⟨hloy, hyhi⟩ := h.units_bounds hy
  obtain ⟨hhalf, heq⟩ := exists_half_eq
  rw [heq] at hfinite ⊢
  have hsum := isFinite_of_mul hfinite
  have hunits := units_eq_of_place? (place?_add (h.isFinite x hx) (h.isFinite y hy)) hsum
  have hlimit := natAbs_units_lt (x := x + y)
  rw [hunits] at hlimit
  have hlower : 2 * lo.units ≤ nearest (x.units + y.units) 1 :=
    two_mul_le_nearest h.isFinite_lo (by omega) hlimit
  have hupper : nearest (x.units + y.units) 1 ≤ 2 * hi.units :=
    nearest_le_two_mul h.isFinite_hi (by omega) hlimit
  rw [← hunits] at hlower hupper
  have hone : (perOne : Int) = (1 <<< 1073 : Nat) * 2 := by
    exact_mod_cast shiftLeft_add 1073 1
  have hpos : (0 : Int) ≤ (1 <<< 1073 : Nat) := Int.natCast_nonneg _
  have hproduct : (finite false (1 <<< 1073) hhalf).units = (1 <<< 1073 : Nat) := rfl
  rw [units_eq_of_place? (place?_mul rfl hsum) hfinite, hproduct]
  generalize ((1 <<< 1073 : Nat) : Int) = half at *
  constructor
  · apply le_nearest h.isFinite_lo perOne_pos
    calc lo.units * perOne = half * (2 * lo.units) := by rw [hone]; ring
      _ ≤ half * (x + y).units := Int.mul_le_mul_of_nonneg_left hlower hpos
  · apply nearest_le h.isFinite_hi perOne_pos
    calc half * (x + y).units ≤ half * (2 * hi.units) := Int.mul_le_mul_of_nonneg_left hupper hpos
      _ = hi.units * perOne := by rw [hone]; ring

theorem medianOf_bounds (h : Spans lo hi xs) (hfinite : (medianOf xs).isFinite) :
    lo.units ≤ (medianOf xs).units ∧ (medianOf xs).units ≤ hi.units := by
  rcases medianOf_cases h.ne_nil with hmem | ⟨x, hx, y, hy, heq⟩
  · exact h.units_bounds hmem
  · rw [heq] at hfinite ⊢
    exact half_add_bounds h hx hy hfinite

/-- Magnitudes below `2 ^ 1023` can be doubled, so no two of them have an infinite sum. -/
theorem isFinite_half_add {x y : Binary64} (hx : x.isFinite) (hy : y.isFinite)
    (hxlt : x.units.natAbs < 1 <<< 2097) (hylt : y.units.natAbs < 1 <<< 2097) :
    (Binary64.ofRatio false 1 2 * (x + y)).isFinite := by
  have hlimit : limit = 1 <<< 2097 * 2 := shiftLeft_add 2097 1
  have hlarger : Representable (2 * max x.units.natAbs y.units.natAbs) := by
    rcases Nat.le_total x.units.natAbs y.units.natAbs with hle | hle
    · rw [Nat.max_eq_right hle]
      exact representable_two_mul (representable_units hy) (by omega)
    · rw [Nat.max_eq_left hle]
      exact representable_two_mul (representable_units hx) (by omega)
  have hnear : (nearest (x.units + y.units) 1).natAbs ≤ 2 * max x.units.natAbs y.units.natAbs := by
    apply natAbs_nearest_le hlarger
    omega
  obtain ⟨hsum, -⟩ := units_of_place?_clamp (place?_add hx hy) (hnear.trans_lt hlarger.1)
  obtain ⟨hhalf, heq⟩ := exists_half_eq
  rw [heq]
  have hproduct : (nearest ((finite false (1 <<< 1073) hhalf).units * (x + y).units)
      perOne).natAbs ≤ (x + y).units.natAbs := by
    apply natAbs_nearest_le (representable_units hsum)
    have hle : 1 <<< 1073 ≤ perOne := Nat.le_of_lt (shiftLeft_lt (by decide))
    rw [Int.natAbs_mul, units, natAbs_signed, Nat.mul_comm]
    exact Nat.mul_le_mul_left _ hle
  exact (units_of_place?_clamp (place?_mul rfl hsum) (hproduct.trans_lt natAbs_units_lt)).1

theorem isFinite_medianOf (hne : xs ≠ []) (hxs : ∀ x ∈ xs, x.isFinite)
    (hlt : ∀ x ∈ xs, x.units.natAbs < 1 <<< 2097) : (medianOf xs).isFinite := by
  rcases medianOf_cases hne with hmem | ⟨x, hx, y, hy, heq⟩
  · exact hxs _ hmem
  · rw [heq]
    exact isFinite_half_add (hxs x hx) (hxs y hy) (hlt x hx) (hlt y hy)

/-! ## Mean -/

namespace Spans

theorem total_bounds (h : Spans lo hi xs) :
    xs.length * lo.units ≤ total xs ∧ total xs ≤ xs.length * hi.units := by
  have hlower := List.card_nsmul_le_sum (xs.map units) lo.units
    (List.forall_mem_map.2 fun x hx => (h.units_bounds hx).1)
  have hupper := List.sum_le_card_nsmul (xs.map units) hi.units
    (List.forall_mem_map.2 fun x hx => (h.units_bounds hx).2)
  rw [List.length_map, nsmul_eq_mul] at hlower hupper
  exact ⟨hlower, hupper⟩

end Spans

/-- The largest magnitude in a range, in units. -/
def reach (lo hi : Binary64) : Nat := max lo.units.natAbs hi.units.natAbs

/-- How far a mean of `n` measurements can be out of their range, in units: one rounding for each
addition, two for their number and one for the quotient, each a share of the largest magnitude, and
half a unit. -/
def meanSlack (n : Nat) (lo hi : Binary64) : ℚ :=
  ((1 + roundoff) ^ (n + 3) - 1) * reach lo hi + 1 / 2

namespace Spans

theorem magnitude_le (h : Spans lo hi xs) : magnitude xs ≤ xs.length * reach lo hi := by
  have hterms : ∀ n ∈ xs.map fun x => x.units.natAbs, n ≤ reach lo hi := by
    intro n hn
    obtain ⟨x, hx, rfl⟩ := List.mem_map.1 hn
    have := h.units_bounds hx
    unfold reach
    omega
  have hsum := List.sum_le_card_nsmul _ _ hterms
  rwa [List.length_map, nsmul_eq_mul, Nat.cast_id] at hsum

theorem length_pos (h : Spans lo hi xs) : (0 : ℚ) < xs.length := by
  exact_mod_cast List.length_pos_of_ne_nil h.ne_nil

/-- The exact mean lies in the range. -/
theorem exactMean_bounds (h : Spans lo hi xs) :
    lo.units ≤ exactMean xs ∧ exactMean xs ≤ hi.units := by
  obtain ⟨hlower, hupper⟩ := h.total_bounds
  unfold exactMean
  rw [le_div_iff₀ h.length_pos, div_le_iff₀ h.length_pos, mul_comm, mul_comm (hi.units : ℚ)]
  exact ⟨by exact_mod_cast hlower, by exact_mod_cast hupper⟩

theorem abs_exactMean_le (h : Spans lo hi xs) : |exactMean xs| ≤ reach lo hi := by
  have htotal : |(total xs : ℚ)| ≤ reach lo hi * xs.length := by
    have hle := (natAbs_total_le xs).trans h.magnitude_le
    rw [Nat.mul_comm] at hle
    rw [← Int.cast_abs, Int.abs_eq_natAbs, Int.cast_natCast]
    exact_mod_cast hle
  rwa [exactMean, abs_div, abs_of_pos h.length_pos, div_le_iff₀ h.length_pos]

end Spans

/-- The number of measurements as a double is one rounding from what it is. -/
theorem count_bounds {n k : Nat} {hk : Representable k} (h : Binary64.ofNat n = .finite false k hk) :
    (n * perOne : ℚ) * (1 - roundoff) ≤ k ∧ (k : ℚ) ≤ n * perOne * (1 + roundoff) := by
  have hplace : (Binary64.ofNat n).place? = some (clamp (nearest (signed false (n * perOne)) 1)) :=
    place?_ofUnits false (n * perOne) Nat.one_pos
  rw [h, nearest_signed false _ Nat.one_pos] at hplace
  have hunits : (k : Int) = (roundUnits (n * perOne) 1 : Nat) := units_eq_of_place? hplace rfl
  have hround := abs_roundUnits_one_sub_le (n * perOne)
  rw [← Int.ofNat_inj.1 hunits, abs_le] at hround
  push_cast at hround
  constructor
  · linarith [hround.1]
  · linarith [hround.2]

/-- So it is no more than two roundings from what it should divide by. -/
theorem abs_count_ratio_sub_one_le {c k : ℚ} (hc : 0 < c) (hlower : c * (1 - roundoff) ≤ k)
    (hupper : k ≤ c * (1 + roundoff)) : |c / k - 1| ≤ (1 + roundoff) ^ 2 - 1 := by
  have hk : 0 < k := (mul_pos hc one_sub_roundoff_pos).trans_le hlower
  have hup : (1 : ℚ) ≤ (1 + roundoff) ^ 2 * (1 - roundoff) := by norm_num [roundoff]
  have hdown : (2 - (1 + roundoff) ^ 2) * (1 + roundoff) ≤ 1 := by norm_num [roundoff]
  have hfactor : 0 ≤ 2 - (1 + roundoff) ^ 2 := by norm_num [roundoff]
  rw [abs_le]
  constructor
  · have hle : 2 - (1 + roundoff) ^ 2 ≤ c / k := by
      rw [le_div_iff₀ hk]
      calc (2 - (1 + roundoff) ^ 2) * k ≤ (2 - (1 + roundoff) ^ 2) * (c * (1 + roundoff)) :=
            mul_le_mul_of_nonneg_left hupper hfactor
        _ = (2 - (1 + roundoff) ^ 2) * (1 + roundoff) * c := by ring
        _ ≤ 1 * c := mul_le_mul_of_nonneg_right hdown hc.le
        _ = c := one_mul c
    linarith
  · have hle : c / k ≤ (1 + roundoff) ^ 2 := by
      rw [div_le_iff₀ hk]
      calc c = 1 * c := (one_mul c).symm
        _ ≤ (1 + roundoff) ^ 2 * (1 - roundoff) * c := mul_le_mul_of_nonneg_right hup hc.le
        _ = (1 + roundoff) ^ 2 * (c * (1 - roundoff)) := by ring
        _ ≤ (1 + roundoff) ^ 2 * k := mul_le_mul_of_nonneg_left hlower (by positivity)
    linarith

/-- A finite mean is that of a finite sum. -/
theorem isFinite_sum_of_meanOf (hne : xs ≠ []) (hlen : xs.length < UInt64.size)
    (h : (meanOf xs).isFinite) : (sum xs).isFinite := by
  obtain ⟨k, hk, hcount, -⟩ := exists_count hne hlen
  rw [meanOf_eq hne, hcount] at h
  exact isFinite_of_div h

/-- **A finite mean is near the exact one**, which lies in the range. -/
theorem abs_meanOf_sub_le (h : Spans lo hi xs) (hlen : xs.length < UInt64.size)
    (hfinite : (meanOf xs).isFinite) :
    |((meanOf xs).units : ℚ) - exactMean xs| ≤ meanSlack xs.length lo hi := by
  have hsum := isFinite_sum_of_meanOf h.ne_nil hlen hfinite
  obtain ⟨k, hk, hcount, hpos⟩ := exists_count h.ne_nil hlen
  rw [meanOf_eq h.ne_nil, hcount] at hfinite ⊢
  have hn := h.length_pos
  have hgrow : (1 : ℚ) ≤ 1 + roundoff := le_add_of_nonneg_right roundoff_pos.le
  -- the sum
  have hadded : |((sum xs).units : ℚ) / xs.length - exactMean xs| ≤
      ((1 + roundoff) ^ xs.length - 1) * reach lo hi := by
    rw [exactMean, ← sub_div, abs_div, abs_of_pos hn, div_le_iff₀ hn]
    have hmagnitude : (magnitude xs : ℚ) ≤ xs.length * reach lo hi := by
      exact_mod_cast h.magnitude_le
    calc |((sum xs).units : ℚ) - total xs|
        ≤ ((1 + roundoff) ^ xs.length - 1) * magnitude xs := abs_sum_sub_total_le hsum
      _ ≤ ((1 + roundoff) ^ xs.length - 1) * (xs.length * reach lo hi) :=
          mul_le_mul_of_nonneg_left hmagnitude (sub_nonneg.2 (one_le_pow₀ hgrow))
      _ = ((1 + roundoff) ^ xs.length - 1) * reach lo hi * xs.length := by ring
  -- the number of measurements
  have hone : (0 : ℚ) < perOne := by exact_mod_cast perOne_pos
  have hk0 : (0 : ℚ) < k := by exact_mod_cast hpos
  obtain ⟨hlower, hupper⟩ := count_bounds hcount
  have hcounted : |(((sum xs).units * perOne : Int) : ℚ) / k - (sum xs).units / xs.length| ≤
      ((1 + roundoff) ^ 2 - 1) * |((sum xs).units : ℚ) / xs.length| + 0 := by
    have hratio := abs_count_ratio_sub_one_le (mul_pos hn hone) hlower hupper
    have hsplit : (((sum xs).units * perOne : Int) : ℚ) / k - (sum xs).units / xs.length =
        (xs.length * perOne / k - 1) * ((sum xs).units / xs.length) := by
      push_cast
      field_simp
    rw [hsplit, abs_mul, add_zero]
    exact mul_le_mul_of_nonneg_right hratio (abs_nonneg _)
  -- the quotient
  have hplace : (sum xs / finite false k hk).place? =
      some (clamp (nearest ((sum xs).units * perOne) k)) := place?_div hsum hpos
  have hdivided := abs_nearest_sub_le ((sum xs).units * perOne) hpos
  rw [← units_eq_of_place? hplace hfinite, ← add_sub_cancel_left 1 roundoff] at hdivided
  have hmoved := abs_sub_le_of_moved h.abs_exactMean_le hadded hcounted (one_le_pow₀ hgrow)
  rw [add_zero, ← pow_add] at hmoved
  have hrounded := abs_sub_le_of_moved h.abs_exactMean_le hmoved hdivided hgrow
  rwa [← pow_succ] at hrounded

theorem meanOf_bounds (h : Spans lo hi xs) (hlen : xs.length < UInt64.size)
    (hfinite : (meanOf xs).isFinite) :
    lo.units - meanSlack xs.length lo hi ≤ (meanOf xs).units ∧
      (meanOf xs).units ≤ hi.units + meanSlack xs.length lo hi := by
  have hnear := abs_le.1 (abs_meanOf_sub_le h hlen hfinite)
  obtain ⟨hlower, hupper⟩ := h.exactMean_bounds
  constructor
  · linarith [hnear.1]
  · linarith [hnear.2]

/-! ### Means that stay in the range -/

/-- A sum that lies where the range puts it has a mean in the range. -/
theorem meanOf_bounds_of_sum (h : Spans lo hi xs) (hlen : xs.length < 1 <<< 53)
    (hfinite : (meanOf xs).isFinite) (hlower : xs.length * lo.units ≤ (sum xs).units)
    (hupper : (sum xs).units ≤ xs.length * hi.units) :
    lo.units ≤ (meanOf xs).units ∧ (meanOf xs).units ≤ hi.units := by
  have hcount := ofNat_eq (representable_mul_shiftLeft hlen (by decide) : Representable
    (xs.length * perOne))
  have hpos : 0 < xs.length * perOne :=
    Nat.mul_pos (List.length_pos_of_ne_nil h.ne_nil) perOne_pos
  have hone : (0 : Int) ≤ perOne := Int.natCast_nonneg _
  rw [meanOf_eq h.ne_nil, hcount] at hfinite ⊢
  have hsum := isFinite_of_div hfinite
  rw [units_eq_of_place? (place?_div hsum hpos) hfinite]
  constructor
  · apply le_nearest h.isFinite_lo hpos
    calc lo.units * (xs.length * perOne : Nat) = xs.length * lo.units * perOne := by
          push_cast
          ring
      _ ≤ (sum xs).units * perOne := Int.mul_le_mul_of_nonneg_right hlower hone
  · apply nearest_le h.isFinite_hi hpos
    calc (sum xs).units * perOne ≤ xs.length * hi.units * perOne :=
          Int.mul_le_mul_of_nonneg_right hupper hone
      _ = hi.units * (xs.length * perOne : Nat) := by
          push_cast
          ring

/-- The sum of two cannot leave its range, and a sum over a grid is exact. -/
theorem sum_bounds_of_steady (h : Spans lo hi xs) (hsteady : Binary64.Steady xs)
    (hsum : (sum xs).isFinite) :
    xs.length * lo.units ≤ (sum xs).units ∧ (sum xs).units ≤ xs.length * hi.units := by
  rcases hsteady with hlength | ⟨k, hgrid⟩
  · match xs with
    | [] => exact absurd rfl h.ne_nil
    | [x] =>
        obtain ⟨hlox, hxhi⟩ := h.units_bounds (List.mem_singleton_self x)
        have hself : sum [x] = x := zero_true_add x
        rw [hself, List.length_singleton, Nat.cast_one, Int.one_mul, Int.one_mul]
        exact ⟨hlox, hxhi⟩
    | [x, y] =>
        have hx : x ∈ [x, y] := List.mem_cons_self
        have hy : y ∈ [x, y] := List.mem_cons_of_mem _ (List.mem_singleton_self y)
        obtain ⟨hlox, hxhi⟩ := h.units_bounds hx
        obtain ⟨hloy, hyhi⟩ := h.units_bounds hy
        have hself : sum [x, y] = x + y := by
          show zero true + x + y = x + y
          rw [zero_true_add]
        rw [hself] at hsum ⊢
        have hunits := units_eq_of_place? (place?_add (h.isFinite x hx) (h.isFinite y hy)) hsum
        have hlimit := natAbs_units_lt (x := x + y)
        rw [hunits] at hlimit ⊢
        exact ⟨two_mul_le_nearest h.isFinite_lo (by omega) hlimit,
          nearest_le_two_mul h.isFinite_hi (by omega) hlimit⟩
    | x :: y :: z :: rest => exact absurd hlength (by simp only [List.length_cons]; omega)
  · rw [hgrid.isExactSum.units]
    exact h.total_bounds

theorem meanOf_bounds_of_steady (h : Spans lo hi xs) (hsteady : Binary64.Steady xs)
    (hlen : xs.length < 1 <<< 53) (hfinite : (meanOf xs).isFinite) :
    lo.units ≤ (meanOf xs).units ∧ (meanOf xs).units ≤ hi.units := by
  have hsize : xs.length < UInt64.size := Nat.lt_trans hlen (by decide)
  obtain ⟨hlower, hupper⟩ :=
    sum_bounds_of_steady h hsteady (isFinite_sum_of_meanOf h.ne_nil hsize hfinite)
  exact meanOf_bounds_of_sum h hlen hfinite hlower hupper

end PerfGate.Stats
