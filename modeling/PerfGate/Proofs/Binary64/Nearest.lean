import PerfGate.Proofs.Binary64.SumError

/-!
# Binary64 — results are the nearest doubles

A sum, a difference, a product or a quotient of finite doubles lies at the double that is nearest to
the exact result (`nearest`), or at the infinity beyond the last one (`clamp`). Rounding to nearest
keeps the order (`nearest_mono`), leaves what is representable (`nearest_of_representable`), and
moves a result by half a unit and a share of `roundoff` at most (`abs_nearest_sub_le`). No double is
nearer to a quotient than the one it is rounded to (`abs_roundUnits_sub_le_of_representable`).
-/

namespace PerfGate

/-! ## Rounding keeps the order -/

theorem div_le_div_of_mul_le {num den num' den' : Nat} (hden : 0 < den) (hden' : 0 < den')
    (h : num * den' ≤ num' * den) : num / den ≤ num' / den' := by
  rw [Nat.le_div_iff_mul_le hden']
  refine Nat.le_of_mul_le_mul_right ?_ hden
  calc num / den * den' * den = num / den * den * den' := by ac_rfl
    _ ≤ num * den' := Nat.mul_le_mul_right _ (Nat.div_mul_le_self num den)
    _ ≤ num' * den := h

/-- A larger quotient is not rounded to less. -/
theorem roundDiv_mono {num den num' den' : Nat} (hden : 0 < den) (hden' : 0 < den')
    (h : num * den' ≤ num' * den) : roundDiv num den ≤ roundDiv num' den' := by
  rcases Nat.lt_or_eq_of_le (div_le_div_of_mul_le hden hden' h) with hlt | heq
  · have hround := roundDiv_le num den
    have hself : num' / den' ≤ roundDiv num' den' :=
      le_roundDiv_of_mul_le hden' (Nat.div_mul_le_self num' den')
    omega
  · -- between the same neighbours, the rests decide
    have hsplit := Nat.div_add_mod' num den
    have hsplit' := Nat.div_add_mod' num' den'
    have hrest : num % den * den' ≤ num' % den' * den := by
      have hwhole : num / den * den * den' = num' / den' * den' * den := by
        rw [heq]
        ac_rfl
      rw [← hsplit, ← hsplit', Nat.add_mul, Nat.add_mul, hwhole] at h
      omega
    have hup : den ≤ 2 * (num % den) → den' ≤ 2 * (num' % den') := by
      intro hhalf
      refine Nat.le_of_mul_le_mul_right ?_ hden
      calc den' * den = den * den' := Nat.mul_comm _ _
        _ ≤ 2 * (num % den) * den' := Nat.mul_le_mul_right _ hhalf
        _ = 2 * (num % den * den') := Nat.mul_assoc _ _ _
        _ ≤ 2 * (num' % den' * den) := Nat.mul_le_mul_left 2 hrest
        _ = 2 * (num' % den') * den := (Nat.mul_assoc _ _ _).symm
    have htie : 2 * (num' % den') = den' → 2 * (num % den) ≤ den := by
      intro hhalf
      refine Nat.le_of_mul_le_mul_right ?_ hden'
      calc 2 * (num % den) * den' = 2 * (num % den * den') := Nat.mul_assoc _ _ _
        _ ≤ 2 * (num' % den' * den) := Nat.mul_le_mul_left 2 hrest
        _ = 2 * (num' % den') * den := (Nat.mul_assoc _ _ _).symm
        _ = den * den' := by rw [hhalf, Nat.mul_comm]
    unfold roundDiv
    simp only [heq]
    split <;> split <;> omega

/-- A rounded quotient stands for the nearer of the two multiples around the number; what is not
between these is no nearer. -/
theorem abs_roundDiv_sub_le {num den k : Nat} (hden : 0 < den)
    (hk : k ≤ den * (num / den) ∨ den * (num / den + 1) ≤ k) :
    |((den * roundDiv num den : Nat) : ℚ) - num| ≤ |(k : ℚ) - num| := by
  have hsplit := Nat.div_add_mod num den
  have hrest := Nat.mod_lt num hden
  have hround : roundDiv num den = num / den ∧ 2 * (num % den) ≤ den ∨
      roundDiv num den = num / den + 1 ∧ den ≤ 2 * (num % den) := by
    unfold roundDiv
    simp only
    split_ifs <;> omega
  generalize num % den = rest at *
  generalize num / den = below at *
  have hnum : (num : ℚ) = den * below + rest := by exact_mod_cast hsplit.symm
  have hlt : (rest : ℚ) ≤ den := by exact_mod_cast hrest.le
  have hnonneg : (0 : ℚ) ≤ rest := Nat.cast_nonneg _
  have hnear : |((den * roundDiv num den : Nat) : ℚ) - num| ≤ rest ∧
      |((den * roundDiv num den : Nat) : ℚ) - num| ≤ den - rest := by
    rcases hround with ⟨hround, hhalf⟩ | ⟨hround, hhalf⟩
    · have hcast : 2 * (rest : ℚ) ≤ den := by exact_mod_cast hhalf
      rw [hround, hnum, Nat.cast_mul, sub_add_cancel_left, abs_neg, abs_of_nonneg hnonneg]
      constructor <;> linarith
    · have hcast : (den : ℚ) ≤ 2 * rest := by exact_mod_cast hhalf
      have hdiff : ((den * (below + 1) : Nat) : ℚ) - (den * below + rest) = den - rest := by
        push_cast
        ring
      rw [hround, hnum, hdiff, abs_of_nonneg (by linarith)]
      constructor <;> linarith
  rcases hk with hle | hge
  · have hcast : (k : ℚ) ≤ den * below := by exact_mod_cast hle
    refine hnear.1.trans (le_trans ?_ (neg_le_abs _))
    rw [hnum]
    linarith
  · have hcast : (den : ℚ) * (below + 1) ≤ k := by exact_mod_cast hge
    refine hnear.2.trans (le_trans ?_ (le_abs_self _))
    rw [hnum]
    linarith

namespace Binary64

theorem roundUnits_mono {num den num' den' : Nat} (hden : 0 < den) (hden' : 0 < den')
    (h : num * den' ≤ num' * den) : roundUnits num den ≤ roundUnits num' den' := by
  rcases Nat.lt_or_eq_of_le (log2_mono (div_le_div_of_mul_le hden hden' h)) with hlog | hlog
  · -- a power of two stands between
    have hne : num' / den' ≠ 0 := by
      intro hzero
      rw [hzero, Nat.log2_zero] at hlog
      exact Nat.not_lt_zero _ hlog
    have hpower : 1 <<< (num' / den').log2 * den' ≤ num' := by
      rw [← Nat.le_div_iff_mul_le hden', Nat.one_shiftLeft]
      exact Nat.log2_self_le hne
    calc roundUnits num den ≤ 1 <<< ((num / den).log2 + 1) := roundUnits_le num den
      _ ≤ 1 <<< (num' / den').log2 := Nat.le_of_dvd (shiftLeft_pos _) (shiftLeft_dvd hlog)
      _ ≤ roundUnits num' den' := shiftLeft_le_roundUnits hden' hpower
  · -- the grid is the same
    have hspacing : spacing (num / den) = spacing (num' / den') := by rw [spacing, spacing, hlog]
    have hstep := spacing_pos (num' / den')
    unfold roundUnits
    simp only [hspacing]
    apply Nat.mul_le_mul_left
    apply roundDiv_mono (Nat.mul_pos hden hstep) (Nat.mul_pos hden' hstep)
    rw [← Nat.mul_assoc, ← Nat.mul_assoc]
    exact Nat.mul_le_mul_right _ h

/-- Rounding moves a quotient by half a unit and a share of it at most. -/
theorem abs_roundUnits_sub_le (num : Nat) {den : Nat} (hden : 0 < den) :
    |(roundUnits num den : ℚ) - num / den| ≤ roundoff * (num / den) + 1 / 2 := by
  have hpos : (0 : ℚ) < den := by exact_mod_cast hden
  have hquot : (0 : ℚ) ≤ num / den := by positivity
  have hstep : (spacing (num / den) : ℚ) ≤ 2 * roundoff * (num / den) + 1 := by
    rcases Nat.lt_or_ge num (smallestNormal * den) with hlt | hge
    · -- below the smallest normal magnitude every whole number of units is a double
      have hlog : (num / den).log2 ≤ 52 := by
        have hq : num / den ≤ 1 <<< 52 := Nat.div_le_of_le_mul (by
          rw [Nat.mul_comm]
          exact Nat.le_of_lt hlt)
        have := log2_mono hq
        rwa [log2_shiftLeft] at this
      have hone : spacing (num / den) = 1 := by rw [spacing, Nat.sub_eq_zero_of_le hlog]; rfl
      rw [hone, Nat.cast_one]
      have := mul_nonneg roundoff_pos.le hquot
      linarith
    · have := spacing_div_le hden hge
      linarith
  have hupper : ((2 * (roundDiv num (den * spacing (num / den)) * (den * spacing (num / den))) :
      Nat) : ℚ) ≤ (2 * num + den * spacing (num / den) : Nat) := by
    exact_mod_cast roundDiv_mul_le _ _
  have hlower : ((2 * num : Nat) : ℚ) ≤ (2 * (roundDiv num (den * spacing (num / den)) *
      (den * spacing (num / den))) + den * spacing (num / den) : Nat) := by
    exact_mod_cast le_roundDiv_mul (Nat.mul_pos hden (spacing_pos _))
  push_cast at hupper hlower
  rw [cast_roundUnits]
  generalize (spacing (num / den) : ℚ) = step at *
  generalize (roundDiv num (den * spacing (num / den)) : ℚ) = k at *
  have habove : step * k ≤ num / den + step / 2 := by
    rw [div_add' _ _ _ hpos.ne', le_div_iff₀ hpos]
    linarith
  have hbelow : (num : ℚ) / den ≤ step * k + step / 2 := by
    rw [div_le_iff₀ hpos]
    linarith
  rw [abs_le]
  constructor <;> linarith

/-! ## No double is nearer -/

section Nearer

variable {m q : Nat}

/-- A double that is no larger than a number is no larger than the number's grid point below. -/
theorem le_mul_div_spacing (hm : Representable m) (h : m ≤ q) :
    m ≤ spacing q * (q / spacing q) := by
  have hq : 1 <<< q.log2 ≤ q ∨ q = 0 := by
    rcases Nat.eq_zero_or_pos q with hzero | hpos
    · exact .inr hzero
    · rw [Nat.one_shiftLeft]
      exact .inl (Nat.log2_self_le (by omega))
  have hgrid : ∀ k, spacing q ∣ k → k ≤ q → k ≤ spacing q * (q / spacing q) := by
    rintro k ⟨j, rfl⟩ hk
    exact Nat.mul_le_mul_left _ ((Nat.le_div_iff_mul_le (spacing_pos q)).2 (by rwa [Nat.mul_comm]))
  rcases Nat.lt_or_eq_of_le (log2_mono h) with hlog | hlog
  · -- the power of two of the number stands between, and is on the grid
    rcases hq with hq | rfl
    · refine Nat.le_trans ?_ (hgrid _ (shiftLeft_dvd (Nat.sub_le _ 52)) hq)
      by_cases hzero : m = 0
      · rw [hzero]
        exact Nat.zero_le _
      · rw [Nat.one_shiftLeft]
        exact Nat.le_of_lt ((Nat.log2_lt hzero).1 hlog)
    · rw [Nat.log2_zero] at hlog
      exact absurd hlog (Nat.not_lt_zero _)
  · have hspacing : spacing m = spacing q := by rw [spacing, spacing, hlog]
    exact hgrid m (hspacing ▸ hm.2) h

/-- A double that is larger than a number is no smaller than the number's grid point above. -/
theorem mul_div_spacing_add_le (hm : Representable m) (h : q < m) :
    spacing q * (q / spacing q) + spacing q ≤ m := by
  obtain ⟨j, rfl⟩ := Nat.dvd_trans (spacing_dvd_spacing (Nat.le_of_lt h)) hm.2
  rw [← Nat.mul_succ]
  apply Nat.mul_le_mul_left
  exact Nat.succ_le_of_lt ((Nat.div_lt_iff_lt_mul (spacing_pos q)).2 (by rwa [Nat.mul_comm]))

/-- **No double is nearer to a quotient** than the one that it is rounded to. -/
theorem abs_roundUnits_sub_le_of_representable (hm : Representable m) (num : Nat) {den : Nat}
    (hden : 0 < den) : |(roundUnits num den : ℚ) - num / den| ≤ |(m : ℚ) - num / den| := by
  have hpos : (0 : ℚ) < den := by exact_mod_cast hden
  have hbelow : num / den / spacing (num / den) = num / (den * spacing (num / den)) :=
    Nat.div_div_eq_div_mul _ _ _
  have houtside : m * den ≤ den * spacing (num / den) * (num / (den * spacing (num / den))) ∨
      den * spacing (num / den) * (num / (den * spacing (num / den)) + 1) ≤ m * den := by
    rw [← hbelow]
    rcases Nat.lt_or_ge (num / den) m with hlt | hge
    · right
      have h := Nat.mul_le_mul_right den (mul_div_spacing_add_le hm hlt)
      rw [← Nat.mul_add_one] at h
      refine Nat.le_trans (Nat.le_of_eq ?_) h
      ac_rfl
    · left
      have h := Nat.mul_le_mul_right den (le_mul_div_spacing hm hge)
      refine Nat.le_trans h (Nat.le_of_eq ?_)
      ac_rfl
  have hscaled : ∀ k : Nat, (k : ℚ) - num / den = ((k * den : Nat) - (num : ℚ)) / den := by
    intro k
    rw [Nat.cast_mul, sub_div, mul_div_cancel_right₀ _ hpos.ne']
  have hunits : roundUnits num den * den =
      den * spacing (num / den) * roundDiv num (den * spacing (num / den)) := by
    unfold roundUnits
    ac_rfl
  rw [hscaled, hscaled, abs_div, abs_div, hunits]
  apply div_le_div_of_nonneg_right _ (abs_nonneg _)
  exact abs_roundDiv_sub_le (Nat.mul_pos hden (spacing_pos _)) houtside

end Nearer

/-! ## The nearest double -/

/-- The units of the double nearest to `num / den` units, as if there were no largest double. -/
def nearest (num : Int) (den : Nat) : Int :=
  signed (decide (num < 0)) (roundUnits num.natAbs den)

/-- A number of units on the line of doubles, where the infinities stand at the two limits. -/
def clamp (i : Int) : Int := max (-limit) (min i limit)

theorem roundUnits_zero {den : Nat} (hden : 0 < den) : roundUnits 0 den = 0 :=
  roundUnits_eq representable_zero hden (Nat.zero_mul den).symm

theorem ofUnits_zero {negative : Bool} {den : Nat} (hden : 0 < den) :
    ofUnits negative 0 den = .zero negative := by
  have hzero := roundUnits_zero hden
  rw [ofUnits_of_lt (by rw [hzero]; exact limit_pos)]
  simp only [hzero]
  rfl

theorem nearest_zero {den : Nat} (hden : 0 < den) : nearest 0 den = 0 := by
  rw [nearest, Int.natAbs_zero, roundUnits_zero hden]
  rfl

theorem nearest_signed (negative : Bool) (n : Nat) {den : Nat} (hden : 0 < den) :
    nearest (signed negative n) den = signed negative (roundUnits n den) := by
  rcases Nat.eq_zero_or_pos n with rfl | hn
  · have hzero : signed negative 0 = 0 := by cases negative <;> rfl
    rw [roundUnits_zero hden, hzero, nearest_zero hden]
  · rw [nearest, natAbs_signed, decide_signed_neg hn.ne']

theorem nearest_of_nonneg {num : Int} (h : 0 ≤ num) (den : Nat) :
    nearest num den = roundUnits num.natAbs den := by
  rw [nearest, decide_eq_false (by omega)]
  rfl

theorem nearest_of_neg {num : Int} (h : num < 0) (den : Nat) :
    nearest num den = -(roundUnits num.natAbs den : Int) := by
  rw [nearest, decide_eq_true h]
  rfl

/-- What is representable is not rounded. -/
theorem nearest_of_representable {i : Int} {den : Nat} (hi : Representable i.natAbs)
    (hden : 0 < den) : nearest (i * den) den = i := by
  have hunits : roundUnits (i * den).natAbs den = i.natAbs :=
    roundUnits_eq hi hden (by rw [Int.natAbs_mul, Int.natAbs_natCast])
  have hsign : decide (i * den < 0) = decide (i < 0) := by
    have hpos : (0 : Int) < den := by exact_mod_cast hden
    rw [decide_eq_decide, ← not_le, ← not_le, mul_nonneg_iff_of_pos_right hpos]
  rw [nearest, hunits, hsign, signed_natAbs]

/-- The nearest double is within a double that bounds the quotient. -/
theorem natAbs_nearest_le {num : Int} {den m : Nat} (hm : Representable m)
    (h : num.natAbs ≤ m * den) : (nearest num den).natAbs ≤ m := by
  rw [nearest, natAbs_signed]
  exact roundUnits_le_of_le_mul hm h

/-- **Rounding to nearest keeps the order.** -/
theorem nearest_mono {num num' : Int} {den den' : Nat} (hden : 0 < den) (hden' : 0 < den')
    (h : num * den' ≤ num' * den) : nearest num den ≤ nearest num' den' := by
  have hpos : (0 : Int) < den := by exact_mod_cast hden
  have hpos' : (0 : Int) < den' := by exact_mod_cast hden'
  rcases Int.lt_or_le num 0 with hneg | hnonneg
  · rw [nearest_of_neg hneg]
    rcases Int.lt_or_le num' 0 with hneg' | hnonneg'
    · have habs : num'.natAbs * den ≤ num.natAbs * den' := by
        have hnum : num = -(num.natAbs : Int) := by omega
        have hnum' : num' = -(num'.natAbs : Int) := by omega
        rw [hnum, hnum', Int.neg_mul, Int.neg_mul] at h
        exact_mod_cast Int.neg_le_neg_iff.1 h
      have := roundUnits_mono hden' hden habs
      rw [nearest_of_neg hneg']
      omega
    · rw [nearest_of_nonneg hnonneg']
      omega
  · have hnonneg' : 0 ≤ num' := by
      have hmul : 0 ≤ num' * den := (Int.mul_nonneg hnonneg hpos'.le).trans h
      exact nonneg_of_mul_nonneg_left hmul hpos
    have habs : num.natAbs * den' ≤ num'.natAbs * den := by
      rw [← Int.natAbs_of_nonneg hnonneg, ← Int.natAbs_of_nonneg hnonneg'] at h
      exact_mod_cast h
    have := roundUnits_mono hden hden' habs
    rw [nearest_of_nonneg hnonneg, nearest_of_nonneg hnonneg']
    omega

theorem abs_nearest_sub_le (num : Int) {den : Nat} (hden : 0 < den) :
    |(nearest num den : ℚ) - num / den| ≤ roundoff * |(num / den : ℚ)| + 1 / 2 := by
  have hunits := abs_roundUnits_sub_le num.natAbs hden
  have hquot : (0 : ℚ) ≤ (num.natAbs : ℚ) / den :=
    div_nonneg (Nat.cast_nonneg _) (Nat.cast_nonneg _)
  rcases Int.lt_or_le num 0 with hneg | hnonneg
  · have hnum : (num : ℚ) = -(num.natAbs : ℚ) := by
      rw [← Int.cast_natCast, Int.ofNat_natAbs_of_nonpos hneg.le, Int.cast_neg, neg_neg]
    have hround : (nearest num den : ℚ) = -(roundUnits num.natAbs den : ℚ) := by
      rw [nearest_of_neg hneg, Int.cast_neg, Int.cast_natCast]
    rw [hround, hnum, neg_div, abs_neg, abs_of_nonneg hquot, neg_sub_neg, abs_sub_comm]
    exact hunits
  · have hnum : (num : ℚ) = (num.natAbs : ℚ) := by
      rw [← Int.cast_natCast, Int.natAbs_of_nonneg hnonneg]
    rw [nearest_of_nonneg hnonneg, hnum, abs_of_nonneg hquot]
    exact hunits

/-! ## Where results lie -/

theorem place?_of_isFinite {x : Binary64} (h : x.isFinite) : x.place? = some x.units := by
  cases x with
  | nan => cases h
  | infinite s => cases h
  | finite s n hn => rfl

theorem natAbs_units_lt {x : Binary64} : x.units.natAbs < limit := by
  cases x with
  | nan => exact limit_pos
  | infinite s => exact limit_pos
  | finite s n hn =>
      rw [units, natAbs_signed]
      exact hn.1

theorem representable_units {x : Binary64} (h : x.isFinite) : Representable x.units.natAbs := by
  cases x with
  | nan => cases h
  | infinite s => cases h
  | finite s n hn =>
      rw [units, natAbs_signed]
      exact hn

theorem clamp_signed (negative : Bool) (n : Nat) :
    clamp (signed negative n) = signed negative (min n limit) := by
  unfold clamp signed
  cases negative with
  | false =>
      rw [if_neg Bool.false_ne_true, if_neg Bool.false_ne_true]
      omega
  | true =>
      rw [if_pos rfl, if_pos rfl]
      omega

theorem place?_ofUnits (negative : Bool) (n : Nat) {den : Nat} (hden : 0 < den) :
    (ofUnits negative n den).place? = some (clamp (nearest (signed negative n) den)) := by
  rw [nearest_signed negative n hden, clamp_signed]
  rcases Nat.lt_or_ge (roundUnits n den) limit with hlt | hge
  · rw [ofUnits_of_lt hlt, Nat.min_eq_left (Nat.le_of_lt hlt)]
    rfl
  · rw [ofUnits_of_le hge, Nat.min_eq_right hge]
    rfl

section Results

variable {x y : Binary64}

theorem place?_add (hx : x.isFinite) (hy : y.isFinite) :
    (x + y).place? = some (clamp (nearest (x.units + y.units) 1)) := by
  cases x with
  | nan => cases hx
  | infinite s => cases hx
  | finite s m hm =>
      cases y with
      | nan => cases hy
      | infinite t => cases hy
      | finite t n hn =>
          simp only [units]
          rw [finite_add_finite]
          by_cases hzero : signed s m + signed t n = 0
          · rw [if_pos hzero, hzero, place?_of_isFinite rfl, units_zero, nearest_zero Nat.one_pos]
            rfl
          · rw [if_neg hzero, place?_ofUnits _ _ Nat.one_pos, signed_natAbs]

theorem units_neg (x : Binary64) : (-x).units = -x.units := by
  cases x with
  | nan => rfl
  | infinite s => rfl
  | finite s n h =>
      show signed (!s) n = -signed s n
      cases s with
      | false => rfl
      | true => exact (Int.neg_neg _).symm

theorem place?_sub (hx : x.isFinite) (hy : y.isFinite) :
    (x - y).place? = some (clamp (nearest (x.units - y.units) 1)) := by
  have hadd := place?_add hx (isFinite_neg hy)
  rw [units_neg, ← Int.sub_eq_add_neg] at hadd
  exact hadd

theorem signed_mul_signed (s t : Bool) (m n : Nat) :
    signed s m * signed t n = signed (s != t) (m * n) := by
  cases s <;> cases t <;> simp [signed]

theorem place?_mul (hx : x.isFinite) (hy : y.isFinite) :
    (x * y).place? = some (clamp (nearest (x.units * y.units) perOne)) := by
  cases x with
  | nan => cases hx
  | infinite s => cases hx
  | finite s m hm =>
      cases y with
      | nan => cases hy
      | infinite t => cases hy
      | finite t n hn =>
          simp only [units]
          rw [finite_mul_finite, signed_mul_signed]
          exact place?_ofUnits _ _ perOne_pos

theorem place?_div {n : Nat} {hn : Representable n} (hx : x.isFinite) (hpos : 0 < n) :
    (x / finite false n hn).place? = some (clamp (nearest (x.units * perOne) n)) := by
  cases x with
  | nan => cases hx
  | infinite s => cases hx
  | finite s m hm =>
      have hunits : signed s m * (perOne : Int) = signed s (m * perOne) := by
        have := signed_mul_signed s false m perOne
        rwa [Bool.bne_false] at this
      simp only [units]
      rw [finite_div_finite hm hn hpos, hunits, Bool.bne_false]
      exact place?_ofUnits _ _ hpos

end Results

/-! ## Comparisons with results -/

section Clamped

variable {x z : Binary64} {i j : Int}

theorem clamp_mono (h : i ≤ j) : clamp i ≤ clamp j := by
  unfold clamp
  omega

/-- A result is finite if the nearest double is below the limit. -/
theorem units_of_place?_clamp (hz : z.place? = some (clamp i)) (hi : i.natAbs < limit) :
    z.isFinite ∧ z.units = i := by
  have hclamp : clamp i = i := by
    unfold clamp
    omega
  rw [hclamp] at hz
  cases z with
  | nan => cases hz
  | infinite s =>
      rw [← Option.some.inj hz, natAbs_signed] at hi
      exact absurd hi (Nat.lt_irrefl _)
  | finite s n h => exact ⟨rfl, Option.some.inj hz⟩

theorem le_of_place? {a b : Int} (hx : x.place? = some a) (hz : z.place? = some b) :
    x ≤ z ↔ a ≤ b := by
  simp only [LE.le, hx, hz, Option.mem_some_iff, exists_eq_left']

/-- For a finite double it makes no difference that results are infinite from the limit on. -/
theorem le_iff_of_place?_clamp (hz : z.place? = some (clamp i)) (hx : x.isFinite) :
    z ≤ x ↔ i ≤ x.units := by
  have hlt := natAbs_units_lt (x := x)
  rw [le_of_place? hz (place?_of_isFinite hx), clamp]
  omega

end Clamped

end Binary64

end PerfGate
