import PerfGate.Proofs.Binary64.Defined

/-!
# Binary64 — results between two doubles

Rounding to nearest does not jump over a double. So a quotient that lies between two doubles is
rounded to one between them (`le_nearest`, `nearest_le`), and a finite sum of two doubles lies between
twice the smaller and twice the larger one. A longer sum can leave the range that its terms allow it
by the roundings on the way, each a share of `roundoff` at most (`abs_sum_sub_total_le`).
-/

namespace PerfGate.Binary64

variable {x y z : Binary64}

/-! ## Finite results -/

/-- A finite result is the nearest double. -/
theorem units_eq_of_place? {i : Int} (hz : z.place? = some (clamp i)) (hfinite : z.isFinite) :
    z.units = i := by
  rw [place?_of_isFinite hfinite] at hz
  have hlt := natAbs_units_lt (x := z)
  have hclamp := Option.some.inj hz
  unfold clamp at hclamp
  omega

/-- A sum is finite only if both terms are. -/
theorem isFinite_of_add (h : (x + y).isFinite) : x.isFinite ∧ y.isFinite := by
  cases x with
  | nan => cases h
  | infinite s =>
      cases y with
      | nan => cases h
      | finite t n hn => cases h
      | infinite t =>
          have hsum : infinite s + infinite t = if s = t then infinite s else nan := rfl
          rw [hsum] at h
          split at h
          · cases h
          · cases h
  | finite s m hm =>
      cases y with
      | nan => cases h
      | infinite t => cases h
      | finite t n hn => exact ⟨rfl, rfl⟩

theorem isFinite_of_sum {xs : List Binary64} (h : (sum xs).isFinite) : ∀ x ∈ xs, x.isFinite := by
  induction xs using List.reverseRecOn with
  | nil => simp
  | append_singleton xs x ih =>
      rw [sum_concat] at h
      obtain ⟨hxs, hx⟩ := isFinite_of_add h
      rw [List.forall_mem_append, List.forall_mem_singleton]
      exact ⟨ih hxs, hx⟩

theorem isFinite_of_div {n : Nat} {hn : Representable n} (h : (x / finite false n hn).isFinite) :
    x.isFinite := by
  cases x with
  | nan => cases h
  | infinite s => cases h
  | finite s m hm => rfl

theorem isFinite_of_mul {n : Nat} {hn : Representable n} (h : (finite false n hn * x).isFinite) :
    x.isFinite := by
  cases x with
  | nan => cases h
  | finite s m hm => rfl
  | infinite s =>
      have hinfinite : finite false n hn * infinite s =
        if n = 0 then nan else infinite (false != s) := rfl
      rw [hinfinite] at h
      split at h
      · cases h
      · cases h

theorem isFinite_of_mul_self (h : (x * x).isFinite) : x.isFinite := by
  cases x with
  | nan => cases h
  | infinite s => cases h
  | finite s m hm => rfl

theorem isFinite_of_sqrt (h : x.sqrt.isFinite) : x.isFinite := by
  cases x with
  | nan => cases h
  | infinite s => cases s <;> cases h
  | finite s m hm => rfl

/-! ## Bounds on results -/

section Bounds

variable {num : Int} {den : Nat}

theorem le_nearest (hx : x.isFinite) (hden : 0 < den) (h : x.units * den ≤ num) :
    x.units ≤ nearest num den := by
  have hmono := nearest_mono hden hden (Int.mul_le_mul_of_nonneg_right h (Int.natCast_nonneg den))
  rwa [nearest_of_representable (representable_units hx) hden] at hmono

theorem nearest_le (hx : x.isFinite) (hden : 0 < den) (h : num ≤ x.units * den) :
    nearest num den ≤ x.units := by
  have hmono := nearest_mono hden hden (Int.mul_le_mul_of_nonneg_right h (Int.natCast_nonneg den))
  rwa [nearest_of_representable (representable_units hx) hden] at hmono

theorem nearest_neg (num : Int) (hden : 0 < den) : nearest (-num) den = -nearest num den := by
  rcases Int.lt_trichotomy num 0 with hneg | rfl | hpos
  · rw [nearest_of_neg hneg, nearest_of_nonneg (by omega), Int.natAbs_neg, Int.neg_neg]
  · rw [Int.neg_zero, nearest_zero hden, Int.neg_zero]
  · rw [nearest_of_neg (by omega), nearest_of_nonneg hpos.le, Int.natAbs_neg]

/-- The double of a magnitude is a double, as long as it is below the limit. -/
theorem representable_two_mul {n : Nat} (hn : Representable n) (h : 2 * n < limit) :
    Representable (2 * n) := by
  refine ⟨h, ?_⟩
  rcases Nat.eq_zero_or_pos n with rfl | hpos
  · exact Nat.dvd_zero _
  · have hstep : spacing (2 * n) ∣ 2 * spacing n := by
      have htwo : 2 * spacing n = 1 <<< (1 + (n.log2 - 52)) := (shiftLeft_add 1 _).symm
      rw [htwo, spacing, Nat.log2_two_mul hpos.ne']
      exact shiftLeft_dvd (by omega)
    exact Nat.dvd_trans hstep (Nat.mul_dvd_mul_left 2 hn.2)

/-- A sum of two is at least twice what both are at least, unless it is infinite. -/
theorem two_mul_le_nearest (hx : x.isFinite) (h : 2 * x.units ≤ num)
    (hlimit : (nearest num 1).natAbs < limit) : 2 * x.units ≤ nearest num 1 := by
  rcases Nat.lt_or_ge (2 * x.units.natAbs) limit with hlt | hge
  · have hdouble : Representable (2 * x.units).natAbs := by
      rw [Int.natAbs_mul]
      exact representable_two_mul (representable_units hx) hlt
    have hmono : nearest (2 * x.units) 1 ≤ nearest num 1 :=
      nearest_mono Nat.one_pos Nat.one_pos (Int.mul_le_mul_of_nonneg_right h (Int.natCast_nonneg 1))
    have hself := nearest_of_representable hdouble Nat.one_pos
    rw [Nat.cast_one, Int.mul_one] at hself
    rwa [hself] at hmono
  · rcases Int.lt_or_le x.units 0 with hneg | hnonneg
    · omega
    · -- the sum is beyond the limit, and so is what it is rounded to
      have hsum : 1 <<< 2098 * 1 ≤ num.natAbs := by
        have hlimit : limit ≤ num.natAbs := by omega
        rwa [Nat.mul_one]
      have hround := shiftLeft_le_roundUnits Nat.one_pos hsum
      rw [nearest_of_nonneg (by omega), Int.natAbs_natCast] at hlimit
      exact absurd hround (Nat.not_le.2 hlimit)

theorem nearest_le_two_mul (hx : x.isFinite) (h : num ≤ 2 * x.units)
    (hlimit : (nearest num 1).natAbs < limit) : nearest num 1 ≤ 2 * x.units := by
  have hneg : 2 * (-x).units ≤ -num := by
    rw [units_neg]
    omega
  have hle := two_mul_le_nearest (isFinite_neg hx) hneg (by
    rwa [nearest_neg num Nat.one_pos, Int.natAbs_neg])
  rw [nearest_neg num Nat.one_pos, units_neg] at hle
  omega

end Bounds

/-! ## Roundings in a row -/

/-- What is off by a share of `f - 1`, and moved by one of `g - 1`, is off by `f * g - 1`. -/
theorem abs_sub_le_of_moved {exact reach a b f g rest : ℚ} (hexact : |exact| ≤ reach)
    (ha : |a - exact| ≤ (f - 1) * reach) (hb : |b - a| ≤ (g - 1) * |a| + rest) (hg : 1 ≤ g) :
    |b - exact| ≤ (f * g - 1) * reach + rest := by
  have hsize : |a| ≤ f * reach := by
    calc |a| = |(a - exact) + exact| := by rw [sub_add_cancel]
      _ ≤ |a - exact| + |exact| := abs_add_le _ _
      _ ≤ (f - 1) * reach + reach := add_le_add ha hexact
      _ = f * reach := by ring
  have hmoved : (g - 1) * |a| ≤ (g - 1) * (f * reach) :=
    mul_le_mul_of_nonneg_left hsize (sub_nonneg.2 hg)
  calc |b - exact| ≤ |b - a| + |a - exact| := abs_sub_le _ _ _
    _ ≤ ((g - 1) * (f * reach) + rest) + (f - 1) * reach := by linarith
    _ = (f * g - 1) * reach + rest := by ring

/-- Small whole numbers are not rounded, and large ones by a share of `roundoff`. -/
theorem abs_roundUnits_one_sub_le (n : Nat) : |(roundUnits n 1 : ℚ) - n| ≤ roundoff * n := by
  have hroundoff := roundoff_pos
  rcases Nat.lt_or_ge n smallestNormal with hlt | hge
  · have hn := representable_of_lt_smallestNormal hlt
    rw [roundUnits_eq hn Nat.one_pos (Nat.mul_one n).symm, sub_self, abs_zero]
    positivity
  · have hnormal : smallestNormal * 1 ≤ n := by rwa [Nat.mul_one]
    have hupper := roundUnits_le_mul Nat.one_pos hnormal
    have hlower := mul_le_roundUnits Nat.one_pos hnormal
    rw [Nat.cast_one, div_one] at hupper hlower
    rw [abs_le]
    constructor
    · linarith
    · linarith

theorem abs_nearest_one_sub_le (i : Int) : |(nearest i 1 : ℚ) - i| ≤ roundoff * |(i : ℚ)| := by
  have hround := abs_roundUnits_one_sub_le i.natAbs
  have habs : (i.natAbs : ℚ) = |(i : ℚ)| := by
    rw [← Int.cast_natCast, Int.natCast_natAbs, Int.cast_abs]
  rcases Int.lt_or_le i 0 with hneg | hnonneg
  · have hi : (i : ℚ) = -(i.natAbs : ℚ) := by
      rw [habs, abs_of_neg (by exact_mod_cast hneg), neg_neg]
    rw [nearest_of_neg hneg, Int.cast_neg, Int.cast_natCast, ← habs]
    calc |-(roundUnits i.natAbs 1 : ℚ) - i| = |(roundUnits i.natAbs 1 : ℚ) - i.natAbs| := by
          rw [hi, neg_sub_neg, abs_sub_comm]
      _ ≤ roundoff * i.natAbs := hround
  · have hi : (i : ℚ) = i.natAbs := by
      rw [habs, abs_of_nonneg (by exact_mod_cast hnonneg)]
    rw [nearest_of_nonneg hnonneg, Int.cast_natCast, ← habs, hi]
    exact hround

/-! ## Sums -/

/-- **A finite sum is off by one rounding for each term**, each of which is a share of the sum of the
magnitudes at most. -/
theorem abs_sum_sub_total_le {xs : List Binary64} (hsum : (sum xs).isFinite) :
    |((sum xs).units : ℚ) - total xs| ≤ ((1 + roundoff) ^ xs.length - 1) * magnitude xs := by
  induction xs using List.reverseRecOn with
  | nil =>
      show |((0 : Int) : ℚ) - (0 : Int)| ≤ _
      simp
  | append_singleton xs x ih =>
      rw [sum_concat] at hsum ⊢
      obtain ⟨hinit, hx⟩ := isFinite_of_add hsum
      have hlast := abs_nearest_one_sub_le ((sum xs).units + x.units)
      rw [← units_eq_of_place? (place?_add hinit hx) hsum] at hlast
      have hgrow : (1 : ℚ) ≤ 1 + roundoff := le_add_of_nonneg_right roundoff_pos.le
      have hreach : |(total (xs ++ [x]) : ℚ)| ≤ magnitude (xs ++ [x]) := by
        have := natAbs_total_le (xs ++ [x])
        rw [← Int.cast_abs, Int.abs_eq_natAbs, Int.cast_natCast]
        exact_mod_cast this
      have hbefore : |(((sum xs).units + x.units : Int) : ℚ) - total (xs ++ [x])| ≤
          ((1 + roundoff) ^ xs.length - 1) * magnitude (xs ++ [x]) := by
        have hmagnitude : (magnitude xs : ℚ) ≤ magnitude (xs ++ [x]) := by
          rw [magnitude_append]
          exact_mod_cast Nat.le_add_right _ _
        calc |(((sum xs).units + x.units : Int) : ℚ) - total (xs ++ [x])|
            = |((sum xs).units : ℚ) - total xs| := by
              rw [total_append, total_singleton]
              push_cast
              rw [add_sub_add_right_eq_sub]
          _ ≤ ((1 + roundoff) ^ xs.length - 1) * magnitude xs := ih hinit
          _ ≤ ((1 + roundoff) ^ xs.length - 1) * magnitude (xs ++ [x]) :=
              mul_le_mul_of_nonneg_left hmagnitude (sub_nonneg.2 (one_le_pow₀ hgrow))
      have hlast' : |((sum xs + x).units : ℚ) - ((sum xs).units + x.units : Int)| ≤
          (1 + roundoff - 1) * |(((sum xs).units + x.units : Int) : ℚ)| + 0 := by
        rwa [add_sub_cancel_left, add_zero]
      have htotal := abs_sub_le_of_moved hreach hbefore hlast' hgrow
      rwa [← pow_succ, add_zero, ← List.length_singleton (a := x), ← List.length_append] at htotal

/-! ## Roots -/

/-- A root is rounded once, after half a unit is added to its whole part. -/
theorem units_sqrt_le {bound : ℚ} (hx : zero false ≤ x) (hfinite : x.sqrt.isFinite)
    (hbound : 0 ≤ bound) (h : (x.units : ℚ) * perOne ≤ bound ^ 2) :
    (x.sqrt.units : ℚ) ≤ (1 + roundoff) * (bound + 1) := by
  have hroundoff := roundoff_pos
  rcases zero_le_cases hx with rfl | ⟨hxfinite, hxunits⟩
  · cases hfinite
  · cases x with
    | nan => cases hxfinite
    | infinite s => cases hxfinite
    | finite s n hn =>
        simp only [sqrt] at hfinite ⊢
        by_cases hzero : n = 0
        · subst hzero
          rw [if_pos rfl]
          have hunits : (finite s 0 hn).units = 0 := units_zero s
          rw [hunits, Int.cast_zero]
          positivity
        · have hsign : s = false := by
            cases s with
            | false => rfl
            | true =>
                have hunits : 0 ≤ -(n : Int) := hxunits
                omega
          subst hsign
          rw [if_neg hzero, if_neg Bool.false_ne_true] at hfinite ⊢
          have hroot : ((n * perOne).sqrt : ℚ) ≤ bound := by
            rw [← sq_le_sq₀ (Nat.cast_nonneg _) hbound]
            refine le_trans ?_ h
            have hunits : (finite false n hn).units = n := rfl
            rw [hunits, sq]
            exact_mod_cast Nat.sqrt_le (n * perOne)
          rw [units_ofUnits hfinite, Int.cast_natCast]
          generalize hnum : (if (n * perOne).sqrt * (n * perOne).sqrt = n * perOne
            then 2 * (n * perOne).sqrt else 2 * (n * perOne).sqrt + 1) = num
          have hle : num ≤ 2 * (n * perOne).sqrt + 1 := by
            rw [← hnum]
            split
            · exact Nat.le_succ _
            · exact Nat.le_refl _
          have hcast : (num : ℚ) ≤ 2 * bound + 1 := by
            have : (num : ℚ) ≤ 2 * (n * perOne).sqrt + 1 := by exact_mod_cast hle
            linarith
          have hround := (abs_le.1 (abs_roundUnits_sub_le num Nat.two_pos)).2
          rw [Nat.cast_two] at hround
          nlinarith

end PerfGate.Binary64
