import PerfGate.Floor
import PerfGate.Policy.Basic
import PerfGate.Proofs.Binary64.Defined

/-!
# Floor — how far below the recorded mean

A floor is the recorded mean times one less the tolerated share. It is computed in three steps, and
each of them gives the double nearest to its exact result: the share (`share`), what it leaves of
one (`factor`), and the floor (`floorUnits`). No step but the last can be too large for a double
(`place?_floorOf`).

Rounding keeps the order. So a larger tolerance has no higher floor (`floorOf_anti`), and no floor
is above the recorded mean (`floorOf_le_recorded`). A tolerance takes off at least what a double
below it takes off (`takesOff`), so a mean is not below its floor if the recorded mean, less that,
is no larger (`floorOf_le`).
-/

namespace PerfGate

open Binary64

/-- A percentage is a finite double that is not negative. -/
theorem Policy.exists_of_isPercentage {x : Binary64} (h : isPercentage x = true) :
    ∃ s m hm, x = .finite s m hm ∧ (s = true → m = 0) := by
  rw [isPercentage, Bool.and_eq_true, Bool.not_eq_true', decide_eq_false_iff_not] at h
  cases x with
  | nan => cases h.1
  | infinite s => cases h.1
  | finite s m hm =>
      refine ⟨s, m, hm, rfl, ?_⟩
      rintro rfl
      by_contra hpos
      refine h.2 (finite_lt_iff.2 ?_)
      show -(m : Int) < 0
      omega

/-- The tolerances of a policy that makes sense are percentages. -/
theorem Policy.isPercentage_tolerance {p : Policy} (h : p.fault? = none) (kind : ToleranceKind) :
    isPercentage (p.tolerance kind) = true := by
  unfold fault? at h
  split_ifs at h with hthroughput hbandwidth
  rw [Bool.not_eq_true', Bool.not_eq_false] at hthroughput hbandwidth
  cases kind with
  | throughput => exact hthroughput
  | bandwidth => exact hbandwidth

/-- The units of a percentage are not negative. -/
theorem Policy.units_nonneg_of_isPercentage {x : Binary64} (h : isPercentage x = true) :
    x.isFinite ∧ 0 ≤ x.units := by
  obtain ⟨s, m, hm, rfl, hs⟩ := exists_of_isPercentage h
  refine ⟨rfl, ?_⟩
  cases s with
  | false => exact Int.natCast_nonneg m
  | true =>
      have hzero := hs rfl
      show 0 ≤ -(m : Int)
      omega

namespace FloorCheck

/-! ## Steps -/

/-- The share that a tolerance stands for, in units. -/
def share (tolerance : Binary64) : Int := nearest (tolerance.units * perOne) (100 * perOne : Nat)

/-- What a tolerance leaves of one, in units. -/
def factor (tolerance : Binary64) : Int := nearest (perOne - share tolerance) 1

/-- The floor in units, as if there were no largest double. -/
def floorUnits (recorded tolerance : Binary64) : Int :=
  nearest (recorded.units * factor tolerance) perOne

theorem ofNat_one : ∃ h, Binary64.ofNat 1 = .finite false perOne h := by
  have hone : Representable (1 * perOne) := representable_mul_shiftLeft (by decide) (by decide)
  have heq := ofNat_eq hone
  simp only [Nat.one_mul] at heq
  exact ⟨_, heq⟩

theorem hundred_pos : 0 < 100 * perOne := Nat.mul_pos (by decide) perOne_pos

variable {recorded tolerance tolerance' : Binary64}

theorem share_nonneg (htolerance : Policy.isPercentage tolerance = true) : 0 ≤ share tolerance :=
  nearest_nonneg (Int.mul_nonneg (Policy.units_nonneg_of_isPercentage htolerance).2
    (Int.natCast_nonneg perOne)) _

/-- A tolerance divided by a hundred is finite. -/
theorem units_div_hundred (htolerance : Policy.isPercentage tolerance = true) :
    (tolerance / .ofNat 100).isFinite ∧ (tolerance / .ofNat 100).units = share tolerance := by
  obtain ⟨hfinite, -⟩ := Policy.units_nonneg_of_isPercentage htolerance
  have hhundred : Representable (100 * perOne) :=
    representable_mul_shiftLeft (by decide) (by decide)
  have hle : (share tolerance).natAbs ≤ tolerance.units.natAbs := by
    apply natAbs_nearest_le (representable_units hfinite)
    rw [Int.natAbs_mul, Int.natAbs_natCast]
    exact Nat.mul_le_mul_left _ (Nat.le_mul_of_pos_left perOne (by decide))
  rw [ofNat_eq hhundred]
  exact units_of_place?_clamp (place?_div hfinite hundred_pos) (hle.trans_lt natAbs_units_lt)

/-- One less a share is finite. -/
theorem units_one_sub (htolerance : Policy.isPercentage tolerance = true) :
    (.ofNat 1 - tolerance / .ofNat 100 : Binary64).isFinite ∧
      (.ofNat 1 - tolerance / .ofNat 100 : Binary64).units = factor tolerance := by
  obtain ⟨hfinite, hunits⟩ := units_div_hundred htolerance
  obtain ⟨hone, hofNat⟩ := ofNat_one
  have hplace := place?_sub (x := finite false perOne hone) rfl hfinite
  have hnonneg := share_nonneg htolerance
  have hshare : Representable (share tolerance).natAbs := by
    rw [← hunits]
    exact representable_units hfinite
  have hlt : (factor tolerance).natAbs < limit := by
    -- the difference of two amounts is no larger than the larger of them
    rcases Int.le_total (share tolerance) perOne with hle | hge
    · exact (natAbs_nearest_le hone (by omega)).trans_lt hone.1
    · exact (natAbs_nearest_le hshare (by omega)).trans_lt hshare.1
  rw [hofNat]
  rw [hunits] at hplace
  exact units_of_place?_clamp hplace hlt

/-- The floor is where its units are, or infinite. -/
theorem place?_floorOf (hrecorded : recorded.isFinite)
    (htolerance : Policy.isPercentage tolerance = true) :
    (floorOf recorded tolerance).place? = some (clamp (floorUnits recorded tolerance)) := by
  obtain ⟨hfinite, hunits⟩ := units_one_sub htolerance
  have hplace := place?_mul hrecorded hfinite
  rw [hunits] at hplace
  exact hplace

/-! ## Order -/

/-- A larger tolerance leaves no more of one. -/
theorem factor_anti (h : tolerance.units ≤ tolerance'.units) :
    factor tolerance' ≤ factor tolerance := by
  have hpos : (0 : Int) < (100 * perOne : Nat) := Int.natCast_pos.2 hundred_pos
  have hshare : share tolerance ≤ share tolerance' := by
    apply nearest_mono hundred_pos hundred_pos
    exact Int.mul_le_mul_of_nonneg_right
      (Int.mul_le_mul_of_nonneg_right h (Int.natCast_nonneg perOne)) hpos.le
  apply nearest_mono Nat.one_pos Nat.one_pos
  omega

theorem floorUnits_anti (hrecorded : 0 ≤ recorded.units)
    (h : tolerance.units ≤ tolerance'.units) :
    floorUnits recorded tolerance' ≤ floorUnits recorded tolerance := by
  apply nearest_mono perOne_pos perOne_pos
  exact Int.mul_le_mul_of_nonneg_right (Int.mul_le_mul_of_nonneg_left (factor_anti h) hrecorded)
    (Int.natCast_nonneg perOne)

/-- A tolerance leaves one at most. -/
theorem factor_le (htolerance : Policy.isPercentage tolerance = true) :
    factor tolerance ≤ perOne := by
  obtain ⟨hone, -⟩ := ofNat_one
  have hnonneg := share_nonneg htolerance
  calc factor tolerance ≤ nearest (perOne * (1 : Nat)) 1 := by
        apply nearest_mono Nat.one_pos Nat.one_pos
        omega
    _ = perOne := nearest_of_representable hone Nat.one_pos

theorem floorUnits_le (hrecorded : recorded.isFinite) (hpositive : 0 ≤ recorded.units)
    (htolerance : Policy.isPercentage tolerance = true) :
    floorUnits recorded tolerance ≤ recorded.units := by
  calc floorUnits recorded tolerance ≤ nearest (recorded.units * perOne) perOne := by
        apply nearest_mono perOne_pos perOne_pos
        exact Int.mul_le_mul_of_nonneg_right
          (Int.mul_le_mul_of_nonneg_left (factor_le htolerance) hpositive)
          (Int.natCast_nonneg perOne)
    _ = recorded.units := nearest_of_representable (representable_units hrecorded) perOne_pos

/-! ## Floors -/

/-- A larger tolerance has no higher floor. -/
theorem floorOf_anti (hrecorded : recorded.isFinite)
    (hpositive : .zero false < recorded) (htolerance : Policy.isPercentage tolerance = true)
    (htolerance' : Policy.isPercentage tolerance' = true) (h : tolerance ≤ tolerance') :
    floorOf recorded tolerance' ≤ floorOf recorded tolerance := by
  have hunits : tolerance.units ≤ tolerance'.units :=
    (le_iff_units_le (Policy.units_nonneg_of_isPercentage htolerance).1
      (Policy.units_nonneg_of_isPercentage htolerance').1).1 h
  rw [le_of_place? (place?_floorOf hrecorded htolerance')
    (place?_floorOf hrecorded htolerance)]
  exact clamp_mono (floorUnits_anti (units_nonneg_of_zero_lt hpositive) hunits)

/-- No floor is above the recorded mean. -/
theorem floorOf_le_recorded (hrecorded : recorded.isFinite) (hpositive : .zero false < recorded)
    (htolerance : Policy.isPercentage tolerance = true) :
    floorOf recorded tolerance ≤ recorded :=
  (le_iff_of_place?_clamp (place?_floorOf hrecorded htolerance) hrecorded).2
    (floorUnits_le hrecorded (units_nonneg_of_zero_lt hpositive) htolerance)

/-! ## What a tolerance takes off -/

/-- Under the tolerance at least `share` units of each whole are taken off the recorded mean. -/
def TakesOff (share : Nat) (tolerance : Binary64) : Prop :=
  ∃ s n hn, .ofNat 1 - tolerance / .ofNat 100 = .finite s n hn ∧ (s = false → n ≤ perOne - share)

/-- A valid tolerance takes off what a double takes off that is no more than a hundredth of it. -/
theorem takesOff (htolerance : Policy.isPercentage tolerance = true) {d : Nat}
    (hd : Representable d) (hrest : Representable (perOne - d))
    (hle : (d * 100 : Nat) ≤ tolerance.units) : TakesOff d tolerance := by
  have hshare : d ≤ share tolerance := by
    calc (d : Int) = nearest (d * (100 * perOne : Nat)) (100 * perOne : Nat) :=
          (nearest_of_representable (i := d) hd hundred_pos).symm
      _ ≤ share tolerance := by
          apply nearest_mono hundred_pos hundred_pos
          apply Int.mul_le_mul_of_nonneg_right _ (Int.natCast_nonneg _)
          calc (d * (100 * perOne : Nat) : Int) = (d * 100 : Nat) * perOne := by
                push_cast
                exact (Int.mul_assoc _ _ _).symm
            _ ≤ tolerance.units * perOne :=
                Int.mul_le_mul_of_nonneg_right hle (Int.natCast_nonneg _)
  have hfactor : factor tolerance ≤ (perOne - d : Nat) := by
    calc factor tolerance ≤ nearest ((perOne - d : Nat) * (1 : Nat)) 1 := by
          apply nearest_mono Nat.one_pos Nat.one_pos
          omega
      _ = (perOne - d : Nat) := nearest_of_representable (i := (perOne - d : Nat)) hrest Nat.one_pos
  obtain ⟨hfinite, hunits⟩ := units_one_sub htolerance
  cases hrest : Binary64.ofNat 1 - tolerance / Binary64.ofNat 100 with
  | nan =>
      rw [hrest] at hfinite
      cases hfinite
  | infinite s =>
      rw [hrest] at hfinite
      cases hfinite
  | finite s n hn =>
      refine ⟨s, n, hn, hrest, ?_⟩
      rintro rfl
      rw [hrest] at hunits
      have hunits : (n : Int) = factor tolerance := hunits
      omega

/-- A valid tolerance adds nothing to the recorded mean. -/
theorem takesOff_zero (htolerance : Policy.isPercentage tolerance = true) :
    TakesOff 0 tolerance := by
  obtain ⟨hone, -⟩ := ofNat_one
  exact takesOff htolerance representable_zero hone
    (Policy.units_nonneg_of_isPercentage htolerance).2

/-- Seven times the share that one rounding moves a number at most, in units. -/
def scanError : Nat := 7 * 1 <<< 1021

/-- A tenth of a trillionth of a percent. -/
def smallTolerance : Binary64 := .ofRatio false 1 (10 ^ 13)

theorem perOne_eq : perOne = 1 <<< 53 * 1 <<< 1021 := shiftLeft_add 53 1021

theorem cast_perOne_sub_scanError :
    ((perOne - scanError : Nat) : ℚ) = perOne * (1 - 7 * roundoff) := by
  have hle : scanError ≤ perOne := by
    rw [perOne_eq]
    exact Nat.mul_le_mul_right _ (by decide)
  rw [Nat.cast_sub hle, perOne_eq, scanError, Nat.cast_mul, Nat.cast_mul]
  generalize ((1 <<< 1021 : Nat) : ℚ) = step
  have hcount : ((1 <<< 53 : Nat) : ℚ) = 2 ^ 53 := by
    rw [Nat.one_shiftLeft]
    norm_num
  rw [hcount, roundoff]
  push_cast
  ring

theorem exists_smallTolerance :
    ∃ n hn, smallTolerance = .finite false n hn ∧ scanError * 100 ≤ n := by
  obtain ⟨hone, -⟩ := ofNat_one
  have hle : 1 * perOne ≤ perOne * 10 ^ 13 := by
    rw [Nat.mul_comm]
    exact Nat.mul_le_mul_left perOne (by decide)
  have hlt : roundUnits (1 * perOne) (10 ^ 13) < limit :=
    Nat.lt_of_le_of_lt (roundUnits_le_of_le_mul hone hle) hone.1
  refine ⟨_, representable_roundUnits hlt, ?_, ?_⟩
  · rw [smallTolerance, ofRatio]
    exact ofUnits_of_lt hlt
  · rw [scanError, Nat.mul_right_comm]
    apply le_roundUnits_of_mul_le (representable_mul_shiftLeft (by decide) (by decide)) (by decide)
    rw [perOne_eq, Nat.one_mul, Nat.mul_right_comm]
    exact Nat.mul_le_mul_right _ (by decide)

/-- A small tolerance makes up for seven roundings. -/
theorem takesOff_scanError (htolerance : Policy.isPercentage tolerance = true)
    (hsmall : smallTolerance ≤ tolerance) : TakesOff scanError tolerance := by
  obtain ⟨hfinite, -⟩ := Policy.units_nonneg_of_isPercentage htolerance
  obtain ⟨n, hn, heq, hle⟩ := exists_smallTolerance
  rw [heq] at hsmall
  have hunits : (n : Int) ≤ tolerance.units := (le_iff_units_le rfl hfinite).1 hsmall
  have hrest : Representable (perOne - scanError) := by
    rw [perOne_eq, scanError, ← Nat.sub_mul]
    exact representable_mul_shiftLeft (by decide) (by decide)
  exact takesOff htolerance (representable_mul_shiftLeft (by decide) (by decide)) hrest
    ((Int.ofNat_le.2 hle).trans hunits)

/-- If the recorded mean, less what is taken off it, is at most a mean, then so is the floor. -/
theorem floorOf_le {n m share : Nat} (hn : Representable n) (hm : Representable m)
    (htolerance : TakesOff share tolerance) (h : n * (perOne - share) ≤ m * perOne) :
    floorOf (.finite false n hn) tolerance ≤ .finite false m hm := by
  obtain ⟨s, k, hk, hfactor, hle⟩ := htolerance
  have hleft : signed s k ≤ (perOne - share : Nat) := by
    cases s with
    | false => exact Int.ofNat_le.2 (hle rfl)
    | true =>
        -- a negative factor leaves less than nothing
        show -(k : Int) ≤ _
        omega
  have hunits : (n : Int) * signed s k ≤ m * perOne := by
    calc (n : Int) * signed s k ≤ n * (perOne - share : Nat) :=
          Int.mul_le_mul_of_nonneg_left hleft (Int.natCast_nonneg n)
      _ ≤ m * perOne := by exact_mod_cast h
  rw [floorOf, hfactor, le_iff_of_place?_clamp (place?_mul rfl rfl) rfl]
  calc nearest (n * signed s k) perOne ≤ nearest (m * perOne) perOne :=
        nearest_mono perOne_pos perOne_pos
          (Int.mul_le_mul_of_nonneg_right hunits (Int.natCast_nonneg _))
    _ = m := nearest_of_representable (i := m) hm perOne_pos

end FloorCheck

end PerfGate
