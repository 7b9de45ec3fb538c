import PerfGate.Proofs.Binary64.Value
import PerfGate.Proofs.Json.Scan

/-!
# Decimal — the nearest double

A decimal is read to the last bit: the limits beyond which no quotient is formed change nothing
(`nearest_eq`), so the double is the exact value rounded once. None is nearer (`exists_nearest`), and
it is infinite only if the decimal is larger than every double (`lt_of_nearest_not_finite`).
-/

namespace PerfGate.Decimal

open Binary64

/-- The units of a decimal, times its denominator. -/
def numerator (d : Decimal) : Nat :=
  if d.exponent < 0 then d.significand * perOne
  else d.significand * powerOfTen d.exponent.natAbs * perOne

/-- The power of ten that a decimal is a fraction of. -/
def denominator (d : Decimal) : Nat := if d.exponent < 0 then powerOfTen d.exponent.natAbs else 1

variable {d : Decimal} {negative : Bool}

theorem toRat_nonneg (d : Decimal) : 0 ≤ d.toRat :=
  mul_nonneg (Nat.cast_nonneg _) (zpow_nonneg (by norm_num) _)

theorem denominator_pos (d : Decimal) : 0 < d.denominator := by
  unfold denominator
  split_ifs
  · exact powerOfTen_pos _
  · exact Nat.one_pos

theorem numerator_div_denominator (d : Decimal) :
    (d.numerator : ℚ) / d.denominator = d.toRat * perOne := by
  unfold numerator denominator toRat
  split_ifs with h
  · rw [Nat.cast_mul, cast_powerOfTen, ten_zpow_of_neg h, div_eq_mul_inv]
    ring
  · rw [Nat.cast_mul, Nat.cast_mul, cast_powerOfTen, ten_zpow_of_nonneg (not_lt.1 h), Nat.cast_one,
      div_one]

/-! ## The limits -/

theorem roundUnits_of_lt_half {num den : Nat} (h : 2 * num < den) : roundUnits num den = 0 := by
  have hzero : num / den = 0 := Nat.div_eq_of_lt (by omega)
  have hspacing : spacing 0 = 1 := rfl
  unfold roundUnits roundDiv
  rw [hzero, hspacing]
  simp only [Nat.mul_one, hzero, Nat.mod_eq_of_lt (show num < den by omega), h, true_or, if_true]

/-- Beyond the upper limit every double is left behind. -/
theorem limit_le_powerOfTen : limit ≤ powerOfTen 401 * perOne := by decide +kernel

/-- Below the lower limit nothing is left of a unit. -/
theorem two_mul_perOne_lt_powerOfTen : 1 <<< 1076 < powerOfTen 402 := by decide +kernel

theorem powerOfTen_add (a b : Nat) : powerOfTen (a + b) = powerOfTen a * powerOfTen b :=
  Nat.pow_add 10 a b

theorem two_mul_numerator_lt {s k : Nat} (hk : 401 + s.log2 < k) :
    2 * (s * perOne) < powerOfTen k := by
  have hs : s < 2 * 1 <<< s.log2 := by
    have := Nat.lt_log2_self (n := s)
    rwa [Nat.pow_succ, Nat.mul_comm, ← Nat.one_shiftLeft] at this
  have hpower : powerOfTen 402 * 1 <<< s.log2 ≤ powerOfTen k := by
    have hten : 1 <<< s.log2 ≤ powerOfTen s.log2 := by
      rw [Nat.one_shiftLeft]
      exact Nat.pow_le_pow_left (by decide) _
    calc powerOfTen 402 * 1 <<< s.log2 ≤ powerOfTen 402 * powerOfTen s.log2 :=
          Nat.mul_le_mul_left _ hten
      _ = powerOfTen (402 + s.log2) := (powerOfTen_add _ _).symm
      _ ≤ powerOfTen k := Numeral.powerOfTen_mono (by omega)
  calc 2 * (s * perOne) < 2 * (2 * 1 <<< s.log2 * perOne) :=
        Nat.mul_lt_mul_of_pos_left (Nat.mul_lt_mul_of_pos_right hs perOne_pos) Nat.two_pos
    _ = 1 <<< 1076 * 1 <<< s.log2 := by
        have hunits : 1 <<< 1076 = 2 * 2 * perOne := rfl
        rw [hunits]
        ac_rfl
    _ ≤ powerOfTen 402 * 1 <<< s.log2 :=
        Nat.mul_le_mul_right _ (Nat.le_of_lt two_mul_perOne_lt_powerOfTen)
    _ ≤ powerOfTen k := hpower

/-- **A decimal is rounded once.** The limits of its exponent only save the work. -/
theorem nearest_eq (negative : Bool) (d : Decimal) :
    d.nearest negative = ofUnits negative d.numerator d.denominator := by
  unfold nearest
  split_ifs with hzero hlarge hsmall hneg
  · have hnumerator : d.numerator = 0 := by
      unfold numerator
      split_ifs <;> simp [hzero]
    rw [hnumerator, ofUnits_zero d.denominator_pos]
  · have hpos : ¬ d.exponent < 0 := by omega
    rw [numerator, denominator, if_neg hpos, if_neg hpos]
    refine (ofUnits_of_le ?_).symm
    apply shiftLeft_le_roundUnits Nat.one_pos
    have hpower : powerOfTen 401 ≤ d.significand * powerOfTen d.exponent.natAbs :=
      Nat.le_trans (Numeral.powerOfTen_mono (show 401 ≤ d.exponent.natAbs by omega))
        (Nat.le_mul_of_pos_left _ (Nat.pos_of_ne_zero hzero))
    rw [Nat.mul_one]
    exact Nat.le_trans limit_le_powerOfTen (Nat.mul_le_mul_right _ hpower)
  · have hneg : d.exponent < 0 := by omega
    rw [numerator, denominator, if_pos hneg, if_pos hneg]
    have hround := roundUnits_of_lt_half (two_mul_numerator_lt
      (s := d.significand) (k := d.exponent.natAbs) (by omega))
    rw [ofUnits_of_lt (by rw [hround]; exact limit_pos)]
    simp only [hround]
    rfl
  · rw [numerator, denominator, if_pos hneg, if_pos hneg]
    rfl
  · rw [numerator, denominator, if_neg hneg, if_neg hneg]
    rfl

/-! ## What it is rounded to -/

/-- **The double of a decimal is the nearest one**, half a unit and a share of `roundoff` from it at
most. -/
theorem exists_nearest (hfinite : (d.nearest negative).isFinite) :
    ∃ m hm, d.nearest negative = .finite negative m hm ∧
      |m - d.toRat * perOne| ≤ roundoff * (d.toRat * perOne) + 1 / 2 ∧
      ∀ k, Representable k → |(m : ℚ) - d.toRat * perOne| ≤ |(k : ℚ) - d.toRat * perOne| := by
  rw [nearest_eq] at hfinite ⊢
  rw [← numerator_div_denominator]
  exact ⟨_, _, ofUnits_of_lt (roundUnits_lt_limit hfinite), abs_roundUnits_sub_le _ d.denominator_pos,
    fun k hk => abs_roundUnits_sub_le_of_representable hk _ d.denominator_pos⟩

/-- A decimal without a finite double is larger than all of them. -/
theorem lt_of_nearest_not_finite (h : (d.nearest negative).isFinite = false) :
    (maxFinite : ℚ) < d.toRat * perOne := by
  rw [nearest_eq] at h
  rw [← numerator_div_denominator]
  by_contra hle
  have hden : (0 : ℚ) < d.denominator := Nat.cast_pos.2 d.denominator_pos
  have hnum : d.numerator ≤ maxFinite * d.denominator := by
    have := (div_le_iff₀ hden).1 (not_lt.1 hle)
    exact_mod_cast this
  rw [isFinite_ofUnits representable_maxFinite hnum] at h
  cases h

end PerfGate.Decimal
