import PerfGate.Proofs.Assessment.Floor
import PerfGate.Proofs.Binary64.Value

/-!
# Floor — the floor that is meant

What is meant is the recorded mean less the tolerated share, an exact number. The floor that is
computed is rounded three times on the way, so it is up to four shares of `roundoff` away
(`abs_floor_sub_le`): a mean is judged by the exact floor unless it is within that reach of it. If
none of the three results has to be rounded, it is judged by the exact floor wherever it is
(`passed_near_exact`).
-/

namespace PerfGate

namespace Binary64

theorem halfUnit_le : halfUnit ≤ roundoff / 8 := by
  have hfour : (4 : ℚ) ≤ (1 <<< 1021 : Nat) := by
    have hle : 1 <<< 2 ≤ 1 <<< 1021 := Nat.le_of_dvd (shiftLeft_pos _) (shiftLeft_dvd (by decide))
    exact_mod_cast hle
  have hcount : ((1 <<< 53 : Nat) : ℚ) = 2 ^ 53 := by
    rw [Nat.one_shiftLeft]
    norm_num
  rw [halfUnit, FloorCheck.perOne_eq, Nat.cast_mul, hcount, roundoff]
  generalize ((1 <<< 1021 : Nat) : ℚ) = step at *
  rw [div_div, div_le_div_iff_of_pos_left one_pos (by positivity) (by positivity)]
  linarith

end Binary64

open Binary64

namespace FloorCheck

/-! ## Exact floors -/

/-- The recorded mean less the tolerated share. -/
def exactFloor (recorded tolerance : Binary64) : ℚ :=
  recorded.value * (1 - tolerance.value / 100)

/-- How far the floor that is computed can be from the exact one. -/
def reach (recorded tolerance : Binary64) : ℚ :=
  4 * roundoff * (recorded.value * max 1 (tolerance.value / 100)) + halfUnit

/-- None of the three results that lead to a floor has to be rounded. -/
structure Unrounded (recorded tolerance : Binary64) : Prop where
  share : IsValue (tolerance.value / 100)
  factor : IsValue (1 - tolerance.value / 100)
  floor : IsValue (exactFloor recorded tolerance)

variable {current recorded tolerance : Binary64}

/-! ### The exact result of each step -/

theorem share_exact (tolerance : Binary64) :
    ((tolerance.units * perOne : Int) : ℚ) / (100 * perOne : Nat) =
      tolerance.value / 100 * perOne := by
  have hpos := cast_perOne_pos
  push_cast
  rw [value]
  field_simp

theorem factor_exact (tolerance : Binary64) :
    ((perOne - share tolerance : Int) : ℚ) / (1 : Nat) =
      (1 - (share tolerance : ℚ) / perOne) * perOne := by
  have hpos := cast_perOne_pos
  push_cast
  field_simp

theorem floor_exact (recorded tolerance : Binary64) :
    ((recorded.units * factor tolerance : Int) : ℚ) / perOne =
      recorded.value * ((factor tolerance : ℚ) / perOne) * perOne := by
  have hpos := cast_perOne_pos
  push_cast
  rw [value]
  field_simp

/-! ### Three roundings -/

/-- What a tolerance leaves of one is rounded twice. -/
theorem abs_factor_sub_le (htolerance : 0 ≤ tolerance.value) :
    |(factor tolerance : ℚ) / perOne - (1 - tolerance.value / 100)| ≤
      (2 + roundoff) * (roundoff * max 1 (tolerance.value / 100) + halfUnit) := by
  have hshare := abs_nearest_value_sub_le hundred_pos (share_exact tolerance)
  have hfactor := abs_nearest_value_sub_le Nat.one_pos (factor_exact tolerance)
  rw [← share] at hshare
  rw [← factor] at hfactor
  have hroundoff := roundoff_pos
  generalize (share tolerance : ℚ) / perOne = s at *
  generalize (factor tolerance : ℚ) / perOne = f at *
  have hnonneg : 0 ≤ tolerance.value / 100 := by positivity
  generalize tolerance.value / 100 = t at *
  have hone : 1 ≤ max 1 t := le_max_left 1 t
  have hle : t ≤ max 1 t := le_max_right 1 t
  generalize max 1 t = k at *
  have hs : |s - t| ≤ roundoff * k + halfUnit := by
    rw [abs_of_nonneg hnonneg] at hshare
    exact hshare.trans (by gcongr)
  have hrest : |1 - s| ≤ k + (roundoff * k + halfUnit) := by
    have hexact : |1 - t| ≤ k := abs_le.2 ⟨by linarith, by linarith⟩
    calc |1 - s| ≤ |1 - t| + |t - s| := abs_sub_le 1 t s
      _ ≤ k + (roundoff * k + halfUnit) := by
          rw [abs_sub_comm t s]
          exact add_le_add hexact hs
  calc |f - (1 - t)| ≤ |f - (1 - s)| + |(1 - s) - (1 - t)| := abs_sub_le _ _ _
    _ ≤ roundoff * (k + (roundoff * k + halfUnit)) + halfUnit + (roundoff * k + halfUnit) := by
        rw [sub_sub_sub_cancel_left, abs_sub_comm t s]
        gcongr
        exact hfactor.trans (by gcongr)
    _ = (2 + roundoff) * (roundoff * k + halfUnit) := by ring

/-- **The floor is within reach of the exact one.** -/
theorem abs_floor_sub_le (hrecorded : 0 ≤ recorded.value) (htolerance : 0 ≤ tolerance.value) :
    |(floorUnits recorded tolerance : ℚ) / perOne - exactFloor recorded tolerance| ≤
      reach recorded tolerance := by
  have hfactor := abs_factor_sub_le htolerance
  have hfloor := abs_nearest_value_sub_le perOne_pos (floor_exact recorded tolerance)
  rw [← floorUnits] at hfloor
  have hroundoff := roundoff_pos
  have hhalf := halfUnit_le
  unfold exactFloor reach
  generalize (floorUnits recorded tolerance : ℚ) / perOne = m at *
  generalize (factor tolerance : ℚ) / perOne = f at *
  generalize recorded.value = b at *
  have hnonneg : 0 ≤ tolerance.value / 100 := by positivity
  generalize tolerance.value / 100 = t at *
  have hone : 1 ≤ max 1 t := le_max_left 1 t
  have hle : t ≤ max 1 t := le_max_right 1 t
  generalize max 1 t = k at *
  have hsmall : (1 + roundoff) * ((2 + roundoff) * (roundoff * k + halfUnit)) ≤
      3 * roundoff * k := by
    have hcoefficient : (1 + roundoff) * (2 + roundoff) ≤ 8 / 3 := by norm_num [roundoff]
    have hsum : roundoff * k + halfUnit ≤ 9 / 8 * (roundoff * k) := by
      have := mul_le_mul_of_nonneg_left hone hroundoff.le
      linarith
    have hnonneg : 0 ≤ roundoff * k + halfUnit :=
      add_nonneg (mul_nonneg hroundoff.le (zero_le_one.trans hone)) halfUnit_pos.le
    calc (1 + roundoff) * ((2 + roundoff) * (roundoff * k + halfUnit))
        = (1 + roundoff) * (2 + roundoff) * (roundoff * k + halfUnit) := (mul_assoc _ _ _).symm
      _ ≤ 8 / 3 * (9 / 8 * (roundoff * k)) := by gcongr
      _ = 3 * roundoff * k := by ring
  have hf : |f| ≤ k + (2 + roundoff) * (roundoff * k + halfUnit) := by
    have hexact : |1 - t| ≤ k := abs_le.2 ⟨by linarith, by linarith⟩
    calc |f| = |(f - (1 - t)) + (1 - t)| := by rw [sub_add_cancel]
      _ ≤ |f - (1 - t)| + |1 - t| := abs_add_le _ _
      _ ≤ k + (2 + roundoff) * (roundoff * k + halfUnit) := by linarith
  calc |m - b * (1 - t)| ≤ |m - b * f| + |b * f - b * (1 - t)| := abs_sub_le _ _ _
    _ ≤ (roundoff * (b * |f|) + halfUnit) + b * |f - (1 - t)| := by
        rw [← mul_sub, abs_mul b, abs_of_nonneg hrecorded]
        rw [abs_mul b, abs_of_nonneg hrecorded] at hfloor
        exact add_le_add_left hfloor _
    _ ≤ (roundoff * (b * (k + (2 + roundoff) * (roundoff * k + halfUnit))) + halfUnit) +
          b * ((2 + roundoff) * (roundoff * k + halfUnit)) := by gcongr
    _ = b * (roundoff * k + (1 + roundoff) * ((2 + roundoff) * (roundoff * k + halfUnit))) +
          halfUnit := by ring
    _ ≤ b * (roundoff * k + 3 * roundoff * k) + halfUnit := by gcongr
    _ = 4 * roundoff * (b * k) + halfUnit := by ring

/-- Where nothing has to be rounded, the floor is the exact one. -/
theorem floor_eq_of_unrounded (h : Unrounded recorded tolerance) :
    (floorUnits recorded tolerance : ℚ) / perOne = exactFloor recorded tolerance := by
  have hshare : (share tolerance : ℚ) / perOne = tolerance.value / 100 :=
    nearest_value_eq hundred_pos (share_exact tolerance) h.share
  have hfactor : (factor tolerance : ℚ) / perOne = 1 - tolerance.value / 100 := by
    have hexact := factor_exact tolerance
    rw [hshare] at hexact
    exact nearest_value_eq Nat.one_pos hexact h.factor
  have hexact := floor_exact recorded tolerance
  rw [hfactor] at hexact
  exact nearest_value_eq perOne_pos hexact h.floor

/-! ## Judged by the exact floor -/

/-- A mean passes if it is no less than the floor that is computed, be that too large for a double
or not. -/
theorem passed_iff (hcurrent : current.isFinite) (hrecorded : recorded.isFinite)
    (hpositive : .zero false < recorded) (htolerance : Policy.isPercentage tolerance = true) :
    (make current recorded tolerance).passed = true ↔
      (floorUnits recorded tolerance : ℚ) / perOne ≤ current.value := by
  have hnot : ¬ recorded ≤ .zero false := (not_le_iff_lt hrecorded rfl).2 hpositive
  rw [make, if_neg hnot, decide_eq_true_eq,
    le_iff_of_place?_clamp (place?_floorOf hrecorded htolerance) hcurrent, value,
    div_le_div_iff_of_pos_right cast_perOne_pos, Int.cast_le]

/-- A mean is judged by the exact floor up to rounding. Against a positive recorded mean and under a
valid tolerance, a mean that passes is no further than the reach below the exact floor, and a mean
that is as far above it passes. Where none of the three results that lead to the floor has to be
rounded, the means that pass are those from the exact floor on. -/
theorem passed_near_exact (hcurrent : current.isFinite) (hrecorded : recorded.isFinite)
    (hpositive : .zero false < recorded) (htolerance : Policy.isPercentage tolerance = true) :
    ((make current recorded tolerance).passed = true →
      exactFloor recorded tolerance - reach recorded tolerance ≤ current.value) ∧
    (exactFloor recorded tolerance + reach recorded tolerance ≤ current.value →
      (make current recorded tolerance).passed = true) ∧
    (Unrounded recorded tolerance → ((make current recorded tolerance).passed = true ↔
      exactFloor recorded tolerance ≤ current.value)) := by
  have hpassed := passed_iff hcurrent hrecorded hpositive htolerance
  have hbase : 0 ≤ recorded.value := value_nonneg (units_nonneg_of_zero_lt hpositive)
  have hshare : 0 ≤ tolerance.value :=
    value_nonneg (Policy.units_nonneg_of_isPercentage htolerance).2
  have hreach := abs_le.1 (abs_floor_sub_le hbase hshare)
  refine ⟨?_, ?_, ?_⟩
  · intro h
    have := hpassed.1 h
    linarith
  · intro h
    refine hpassed.2 ?_
    linarith
  · intro h
    rw [hpassed, floor_eq_of_unrounded h]

/-- Quarters are doubles, so a mean that is exactly a quarter below the recorded one passes under a
tolerance of twenty-five percent. -/
theorem quarter_passes : Unrounded (.ofNat 1000) (.ofNat 25) ∧
    (make (.ofNat 750) (.ofNat 1000) (.ofNat 25)).passed = true := by
  obtain ⟨hcurrent, hvalue⟩ := value_ofNat (n := 750) (by decide)
  obtain ⟨hrecorded, hrecordedValue⟩ := value_ofNat (n := 1000) (by decide)
  obtain ⟨-, hpercent⟩ := value_ofNat (n := 25) (by decide)
  have hfloor : exactFloor (.ofNat 1000) (.ofNat 25) = 750 := by
    rw [exactFloor, hrecordedValue, hpercent]
    norm_num
  have hunrounded : Unrounded (.ofNat 1000) (.ofNat 25) := by
    refine ⟨?_, ?_, ?_⟩
    · obtain ⟨hquarter, hquarterValue⟩ := value_ofRatio (n := 1) (k := 2) (by decide) (by decide)
      refine ⟨_, hquarter, ?_⟩
      rw [hquarterValue, hpercent]
      norm_num
    · obtain ⟨hrest, hrestValue⟩ := value_ofRatio (n := 3) (k := 2) (by decide) (by decide)
      refine ⟨_, hrest, ?_⟩
      rw [hrestValue, hpercent]
      norm_num
    · exact ⟨_, hcurrent, hvalue.trans hfloor.symm⟩
  have hpositive : .zero false < Binary64.ofNat 1000 := by decide +kernel
  have htolerance : Policy.isPercentage (.ofNat 25) = true := by decide +kernel
  obtain ⟨-, -, hexact⟩ := passed_near_exact hcurrent hrecorded hpositive htolerance
  exact ⟨hunrounded, (hexact hunrounded).2 (by rw [hfloor, hvalue]; rfl)⟩

/-- The step below 930 among the doubles. -/
def belowFloor : Binary64 := .ofRatio false (930 * 1 <<< 43 - 1) (1 <<< 43)

/-- The exact floor does not decide: a mean at it does not pass, and one below it does. -/
theorem rounded_floor_misjudges :
    ((make (.ofNat 410) (.ofNat 500) (.ofNat 18)).passed = false ∧
      exactFloor (.ofNat 500) (.ofNat 18) = (Binary64.ofNat 410).value) ∧
    ((make belowFloor (.ofNat 1000) (.ofNat 7)).passed = true ∧
      belowFloor.value < exactFloor (.ofNat 1000) (.ofNat 7)) := by
  refine ⟨⟨by decide +kernel, ?_⟩, ⟨by decide +kernel, ?_⟩⟩
  · rw [exactFloor, (value_ofNat (by decide)).2, (value_ofNat (by decide)).2,
      (value_ofNat (by decide)).2]
    norm_num
  · rw [exactFloor, (value_ofNat (by decide)).2, (value_ofNat (by decide)).2, belowFloor,
      (value_ofRatio (by decide) (by decide)).2]
    norm_num [Nat.one_shiftLeft]

end FloorCheck

end PerfGate
