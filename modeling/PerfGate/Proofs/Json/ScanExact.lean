import PerfGate.Proofs.Decimal.Nearest
import PerfGate.Proofs.Json.ScanError

/-!
# Json — plain numbers are scanned exactly

A numeral whose digits fit 64 bits loses none of them. If no power of ten is left, one rounding is
all that is done to it, and if both the digits and the power are doubles, so is the one rounding at
the end. Such numerals are scanned to the nearest double (`scan?_of_plain`).
-/

namespace PerfGate

namespace Binary64

variable {negative : Bool} {num den num' den' : Nat}

/-- Only the quotient counts. -/
theorem ofUnits_congr (hden : 0 < den) (hden' : 0 < den') (h : num * den' = num' * den) :
    ofUnits negative num den = ofUnits negative num' den' := by
  have hunits : roundUnits num den = roundUnits num' den' :=
    Nat.le_antisymm (roundUnits_mono hden hden' (Nat.le_of_eq h))
      (roundUnits_mono hden' hden (Nat.le_of_eq h.symm))
  unfold ofUnits
  simp only [hunits]

theorem neg_ofUnits : -ofUnits negative num den = ofUnits (!negative) num den := by
  rcases Nat.lt_or_ge (roundUnits num den) limit with hlt | hge
  · rw [ofUnits_of_lt hlt, ofUnits_of_lt hlt]
    rfl
  · rw [ofUnits_of_le hge, ofUnits_of_le hge]
    rfl

end Binary64

namespace Numeral

open Binary64

/-- A numeral of few digits, with no power of ten or a small one. -/
def Plain (n : Numeral) : Prop :=
  n.magnitude.significand < 1 <<< 64 ∧
    (n.magnitude.significand = 0 ∨ n.magnitude.exponent = 0 ∨
      n.magnitude.exponent.natAbs ≤ 22 ∧ Representable (n.magnitude.significand * perOne))

instance (n : Numeral) : Decidable n.Plain := inferInstanceAs (Decidable (_ ∧ _))

/-- An integer of a document is plain. -/
theorem plain_of_integer?_eq_some {n : Numeral} {i : Int} (h : n.integer? = some i) : n.Plain := by
  have hbits : (1 <<< 63 : Nat) < 1 <<< 64 := by decide
  simp only [integer?, Option.ite_none_right_eq_some] at h
  obtain ⟨⟨hfraction, hexponent⟩, h⟩ := h
  have hmagnitude : n.magnitude = ⟨Nat.ofDigitChars 10 n.whole 0, 0⟩ := by
    simp [magnitude, hfraction, hexponent]
  rw [Plain, hmagnitude]
  refine ⟨?_, .inr (.inl rfl)⟩
  show Nat.ofDigitChars 10 n.whole 0 < 1 <<< 64
  split_ifs at h <;> omega

section Scaled

variable {s : Nat} {e : Int}

/-- The powers of ten that are doubles. -/
theorem representable_powerOfTen : ∀ k < 23, Representable (Decimal.powerOfTen k * perOne) := by
  decide +kernel

theorem tenTo_eq {k : Nat} (hk : k ≤ 22) :
    tenTo k = .finite false _ (representable_powerOfTen k (Nat.lt_succ_of_le hk)) :=
  ofNat_eq _

/-- Zero stays zero. -/
theorem scale?_zero : scale? (.zero false) e = some (.zero false) := by
  rcases Int.lt_or_le e 0 with hneg | hnonneg
  · exact scale?_zero_of_neg hneg
  · by_cases hle : e ≤ 308
    · obtain ⟨n, -, -, hproduct⟩ := exists_mul_tenTo representable_zero (k := e.natAbs) (by omega)
      have hzero : zero false * tenTo e.natAbs = zero false := by
        rw [zero, hproduct, Nat.zero_mul, ofUnits_zero perOne_pos]
        rfl
      rw [scale?_of_nonneg hnonneg hle, hzero]
      rfl
    · rw [scale?, if_pos (by omega), if_pos rfl]

/-- Without a power of ten nothing is scaled. -/
theorem scale?_of_exponent_zero (hs : s < 1 <<< 64) : scale? (.ofNat s) 0 = some (.ofNat s) := by
  obtain ⟨m, hm, hx, -⟩ := around_ofNat hs
  have hone : ofNat s * tenTo 0 = ofNat s := by
    rw [hx, tenTo_eq (Nat.zero_le 22), finite_mul_finite, Bool.bne_false]
    have hunits : roundUnits (m * (Decimal.powerOfTen 0 * perOne)) perOne = m :=
      roundUnits_eq hm perOne_pos (by rw [show Decimal.powerOfTen 0 = 1 from rfl, Nat.one_mul])
    rw [ofUnits_of_lt (by rw [hunits]; exact hm.1)]
    simp only [hunits]
  rw [scale?_of_nonneg (le_refl 0) (by decide), Int.natAbs_zero, hone, hx]
  rfl

/-- A double times a small power of ten is rounded once. -/
theorem scale?_of_nonneg_small (hs : s < 1 <<< 64) (hrepresentable : Representable (s * perOne))
    (he : 0 ≤ e) (hsmall : e.natAbs ≤ 22) :
    scale? (.ofNat s) e = some (ofUnits false (s * Decimal.powerOfTen e.natAbs * perOne) 1) := by
  have hproduct : ofNat s * tenTo e.natAbs =
      ofUnits false (s * Decimal.powerOfTen e.natAbs * perOne) 1 := by
    rw [ofNat_eq hrepresentable, tenTo_eq hsmall, finite_mul_finite, Bool.bne_false]
    refine ofUnits_congr perOne_pos Nat.one_pos ?_
    rw [Nat.mul_one]
    ac_rfl
  have hfinite : (ofUnits false (s * Decimal.powerOfTen e.natAbs * perOne) 1).isFinite := by
    have hpower : Decimal.powerOfTen e.natAbs ≤ 1 <<< 74 :=
      Nat.le_trans (powerOfTen_mono hsmall) (by decide +kernel)
    have hle : s * Decimal.powerOfTen e.natAbs ≤ 1 <<< (64 + 74) := by
      rw [shiftLeft_add]
      exact Nat.mul_le_mul (Nat.le_of_lt hs) hpower
    exact isFinite_ofRatio_one hle (by decide)
  rw [scale?_of_nonneg he (by omega), hproduct, if_pos hfinite]

theorem scale?_of_neg_small (hrepresentable : Representable (s * perOne)) (he : e < 0)
    (hsmall : e.natAbs ≤ 22) :
    scale? (.ofNat s) e = some (ofUnits false (s * perOne) (Decimal.powerOfTen e.natAbs)) := by
  have hpower := Decimal.powerOfTen_pos e.natAbs
  have hden : 0 < Decimal.powerOfTen e.natAbs * perOne := Nat.mul_pos hpower perOne_pos
  have hquotient : ofNat s / tenTo e.natAbs =
      ofUnits false (s * perOne) (Decimal.powerOfTen e.natAbs) := by
    rw [ofNat_eq hrepresentable, tenTo_eq hsmall, finite_div_finite _ _ hden, Bool.bne_false]
    refine ofUnits_congr hden hpower ?_
    ac_rfl
  rw [scale?_of_neg he (by omega), hquotient]

end Scaled

/-- **A plain numeral is scanned to the nearest double.** -/
theorem scan?_of_plain {n : Numeral} (h : n.Plain) : n.scan? = some n.nearest := by
  obtain ⟨hlt, hcases⟩ := h
  have hscale : scale? (.ofNat n.magnitude.significand) n.magnitude.exponent =
      some (ofUnits false n.magnitude.numerator n.magnitude.denominator) := by
    unfold Decimal.numerator Decimal.denominator
    rcases hcases with hzero | hpoint | ⟨hsmall, hrepresentable⟩
    · have hnone : ∀ den, 0 < den → ofUnits false 0 den = .zero false := fun _ =>
        ofUnits_zero
      rw [hzero, ofNat_zero, scale?_zero]
      split_ifs
      · rw [Nat.zero_mul, hnone _ (Decimal.powerOfTen_pos _)]
      · rw [Nat.zero_mul, Nat.zero_mul, hnone 1 Nat.one_pos]
    · rw [hpoint, scale?_of_exponent_zero hlt, if_neg (by decide), if_neg (by decide)]
      rw [Int.natAbs_zero, show Decimal.powerOfTen 0 = 1 from rfl, Nat.mul_one]
      rfl
    · split_ifs with hneg
      · exact scale?_of_neg_small hrepresentable hneg hsmall
      · exact scale?_of_nonneg_small hlt hrepresentable (not_lt.1 hneg) hsmall
  rw [scan?_of_lt hlt, hscale, nearest, Decimal.nearest_eq]
  cases n.negative with
  | false => rfl
  | true => exact congrArg some neg_ofUnits

end Numeral

end PerfGate
