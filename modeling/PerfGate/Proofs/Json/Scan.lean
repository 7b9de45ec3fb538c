import Mathlib.Tactic.FieldSimp
import Mathlib.Tactic.NormNum
import Mathlib.Tactic.Positivity
import PerfGate.Proofs.Binary64.Error
import PerfGate.Proofs.Decimal.Spelling
import PerfGate.Proofs.Json.Finite

/-!
# Json — how far a scanned number is from the written one

Scanning keeps leading digits and drops the others, so what is scaled is no larger than the numeral
(`Numeral.exists_kept`). Each rounding on the way adds a share (`Numeral.exists_scale?`). A finite double is
written with so few digits that neither the whole part nor the exponent gets out of hand: its text is
always read as a finite double again, and one of normal size comes back no more than seven shares
larger (`Json.exists_scan?_doubleNumeral`).
-/

namespace PerfGate

/-! ## Digits -/

theorem ofDigitChars_lt {digits : List Char} (h : ∀ c ∈ digits, c.isDigit) :
    Nat.ofDigitChars 10 digits 0 < 10 ^ digits.length := by
  induction digits with
  | nil => decide
  | cons c digits ih =>
      have hrest := ih fun d hd => h d (List.mem_cons_of_mem _ hd)
      have hc : c.toNat - '0'.toNat ≤ 9 := by
        have hdigit := h c List.mem_cons_self
        rw [Char.isDigit, Bool.and_eq_true, decide_eq_true_eq, decide_eq_true_eq] at hdigit
        have hle : c.toNat ≤ 57 := hdigit.2
        show c.toNat - 48 ≤ 9
        omega
      rw [Nat.ofDigitChars_cons, Nat.ofDigitChars_eq_ofDigitChars_zero, List.length_cons, Nat.pow_succ]
      have hhead := Nat.mul_le_mul_left (10 ^ digits.length) hc
      rw [Nat.mul_zero, Nat.zero_add]
      omega

/-- More digits do not make a number smaller. -/
theorem le_ofDigitChars (digits : List Char) (significand : Nat) :
    significand ≤ Nat.ofDigitChars 10 digits significand := by
  rw [Nat.ofDigitChars_eq_ofDigitChars_zero]
  exact Nat.le_trans (Nat.le_mul_of_pos_left _ (Nat.pow_pos (by decide))) (Nat.le_add_right _ _)

namespace Numeral

/-- What is kept of digits is a number of them from the left. -/
theorem keepDigits_eq (significand : Nat) (digits : List Char) :
    ∃ count ≤ digits.length, keepDigits significand digits =
      (Nat.ofDigitChars 10 (digits.take count) significand, count) := by
  induction digits generalizing significand with
  | nil => exact ⟨0, Nat.le_refl _, rfl⟩
  | cons c digits ih =>
      unfold keepDigits
      simp only
      split
      · obtain ⟨count, hcount, hkept⟩ := ih (significand * 10 + (c.toNat - '0'.toNat))
        refine ⟨count + 1, Nat.succ_le_succ hcount, ?_⟩
        rw [hkept, List.take_succ_cons, Nat.ofDigitChars_cons, Nat.mul_comm 10]
      · exact ⟨0, Nat.zero_le _, rfl⟩

/-- Digits that fit are all kept. -/
theorem keepDigits_of_lt {significand : Nat} {digits : List Char}
    (h : Nat.ofDigitChars 10 digits significand < 1 <<< 64) :
    keepDigits significand digits = (Nat.ofDigitChars 10 digits significand, digits.length) := by
  induction digits generalizing significand with
  | nil => rfl
  | cons c digits ih =>
      rw [Nat.ofDigitChars_cons, Nat.mul_comm] at h ⊢
      have hnext : significand * 10 + (c.toNat - '0'.toNat) < 1 <<< 64 :=
        Nat.lt_of_le_of_lt (le_ofDigitChars digits _) h
      rw [keepDigits]
      simp only [if_pos hnext, ih h, List.length_cons]

/-- **What is scaled is no larger than the numeral**, as long as the digits before the point fit: its
digits are some of those of the numeral, and the power of ten makes up for those behind the point
only. -/
theorem exists_kept (n : Numeral) (hwhole : Nat.ofDigitChars 10 n.whole 0 < 1 <<< 64) :
    ∃ significand < 1 <<< 64, ∃ e : Int, n.magnitude.exponent ≤ e ∧
      significand * (10 : ℚ) ^ e ≤ n.magnitude.toRat ∧
      n.scan? = (scale? (.ofNat significand) e).map fun x => if n.negative then -x else x := by
  have hkept := keepDigits_of_lt hwhole
  obtain ⟨count, hcount, hfraction⟩ :=
    keepDigits_eq (Nat.ofDigitChars 10 n.whole 0) (n.fraction?.getD [])
  generalize hf : n.fraction?.getD [] = fraction at hcount hfraction
  refine ⟨Nat.ofDigitChars 10 (fraction.take count) (Nat.ofDigitChars 10 n.whole 0), ?_,
    n.exponent?.getD 0 - count, ?_, ?_, ?_⟩
  · have hlt := keepDigits_lt hwhole fraction
    rwa [hfraction] at hlt
  · show n.exponent?.getD 0 - ((n.fraction?.getD []).length : Int) ≤ n.exponent?.getD 0 - count
    rw [hf]
    omega
  · -- the digits that are dropped are worth something or nothing
    have hsplit : Nat.ofDigitChars 10 (n.whole ++ fraction) 0 =
        10 ^ (fraction.drop count).length *
            Nat.ofDigitChars 10 (fraction.take count) (Nat.ofDigitChars 10 n.whole 0) +
          Nat.ofDigitChars 10 (fraction.drop count) 0 := by
      rw [← Nat.ofDigitChars_eq_ofDigitChars_zero, ← Nat.ofDigitChars_append,
        ← Nat.ofDigitChars_append, List.take_append_drop]
    have hexponent : n.exponent?.getD 0 - (count : Int) =
        (n.exponent?.getD 0 - fraction.length) + (fraction.drop count).length := by
      rw [List.length_drop]
      omega
    have hpower : (0 : ℚ) < 10 ^ (n.exponent?.getD 0 - (fraction.length : Int)) := by positivity
    show _ ≤ ((Nat.ofDigitChars 10 (n.whole ++ n.fraction?.getD []) 0 : Nat) : ℚ) *
      10 ^ (n.exponent?.getD 0 - ((n.fraction?.getD []).length : Int))
    rw [hf, hsplit, hexponent, zpow_add₀ (by norm_num), zpow_natCast, mul_left_comm,
      mul_comm ((10 : ℚ) ^ (n.exponent?.getD 0 - (fraction.length : Int)))]
    apply mul_le_mul_of_nonneg_right _ hpower.le
    push_cast
    linarith [Nat.cast_nonneg (α := ℚ) (Nat.ofDigitChars 10 (fraction.drop count) 0)]
  · unfold scan?
    simp only [hkept, hf, hfraction, Nat.sub_self, Nat.cast_zero, Int.add_zero]

end Numeral

/-! ## Scaling -/

namespace Binary64

/-- A finite double that is not negative and has at most `bound` units. -/
def Within (x : Binary64) (bound : ℚ) : Prop :=
  ∃ n h, x = .finite false n h ∧ (n : ℚ) ≤ bound

theorem Within.mono {x : Binary64} {a b : ℚ} (h : x.Within a) (hab : a ≤ b) : x.Within b := by
  obtain ⟨n, hn, hx, hle⟩ := h
  exact ⟨n, hn, hx, hle.trans hab⟩

/-- The step between the largest finite magnitudes. -/
def lastStep : Nat := 1 <<< 2045

/-- The largest finite magnitude. -/
def maxFinite : Nat := lastStep * (1 <<< 53 - 1)

/-- The largest magnitudes beside the powers of two and of ten next to them. -/
theorem maxFinite_bounds : Representable maxFinite ∧ maxFinite.log2 = 2097 ∧
    1 <<< 2097 + 3 * lastStep ≤ maxFinite ∧ Decimal.powerOfTen 308 * perOne ≤ maxFinite ∧
    maxFinite < Decimal.powerOfTen 309 * perOne := by
  decide +kernel

theorem representable_maxFinite : Representable maxFinite := maxFinite_bounds.1

theorem cast_maxFinite : (maxFinite : ℚ) = lastStep * 9007199254740991 := by
  have hcount : maxFinite = lastStep * 9007199254740991 := rfl
  have hcast := congrArg (Nat.cast : Nat → ℚ) hcount
  rwa [Nat.cast_mul] at hcast

theorem limit_eq : limit = lastStep * 1 <<< 53 := shiftLeft_add 2045 53

/-- The largest finite magnitudes are whole multiples of the last step. -/
theorem lastStep_dvd {n : Nat} (hn : Representable n) (hlarge : 1 <<< 2097 ≤ n) : lastStep ∣ n := by
  have hlog : 2097 ≤ n.log2 := by
    rw [← log2_shiftLeft 2097]
    exact log2_mono hlarge
  exact Nat.dvd_trans (shiftLeft_dvd (by omega)) hn.2

theorem le_maxFinite {n : Nat} (hn : Representable n) : n ≤ maxFinite := by
  rcases Nat.lt_or_ge n (1 <<< 2097) with hlt | hge
  · have hpower := maxFinite_bounds.2.2.1
    omega
  · obtain ⟨c, rfl⟩ := lastStep_dvd hn hge
    have hc : c < 1 <<< 53 := by
      have hlt := hn.1
      rw [limit_eq] at hlt
      exact Nat.lt_of_mul_lt_mul_left hlt
    exact Nat.mul_le_mul_left _ (by omega)

/-- A double is one of the three largest, or at least three steps below the last. -/
theorem le_or_eq_last {n : Nat} (hn : Representable n) :
    n + 3 * lastStep ≤ maxFinite ∨ ∃ j < 3, n = lastStep * (1 <<< 53 - 1 - j) := by
  rcases Nat.lt_or_ge n (1 <<< 2097) with hlt | hge
  · left
    have hpower := maxFinite_bounds.2.2.1
    omega
  · obtain ⟨c, rfl⟩ := lastStep_dvd hn hge
    have hc : c ≤ 1 <<< 53 - 1 := Nat.le_of_mul_le_mul_left (le_maxFinite hn) (shiftLeft_pos _)
    by_cases hfar : c + 3 ≤ 1 <<< 53 - 1
    · left
      rw [Nat.mul_comm 3, ← Nat.mul_add]
      exact Nat.mul_le_mul_left _ hfar
    · exact .inr ⟨1 <<< 53 - 1 - c, by omega, by congr 1; omega⟩

/-- A quotient of units that is finite is rounded to no more than a share above it. -/
theorem within_ofUnits {num den : Nat} (hden : 0 < den) (hfinite : num ≤ maxFinite * den) :
    (ofUnits false num den).Within (max (smallestNormal : ℚ) (num / den * (1 + roundoff))) := by
  have hlt : roundUnits num den < limit :=
    Nat.lt_of_le_of_lt (roundUnits_le_of_le_mul representable_maxFinite hfinite)
      representable_maxFinite.1
  exact ⟨_, _, ofUnits_of_lt hlt, roundUnits_le_max hden⟩

theorem smallestNormal_le_perOne : smallestNormal ≤ perOne :=
  Nat.le_of_lt (shiftLeft_lt (by decide))

/-- A whole number that is not too large is a double up to a share. -/
theorem exists_ofNat {k : Nat} (hk : k ≤ Decimal.powerOfTen 308) :
    ∃ n h, ofNat k = .finite false n h ∧ k * perOne * (1 - roundoff) ≤ (n : ℚ) ∧
      (n : ℚ) ≤ k * perOne * (1 + roundoff) := by
  rcases Nat.eq_zero_or_pos k with rfl | hpos
  · exact ⟨0, _, ofNat_zero, by simp, by simp⟩
  · have hfinite : k * perOne ≤ maxFinite * 1 := by
      rw [Nat.mul_one]
      exact Nat.le_trans (Nat.mul_le_mul_right _ hk) maxFinite_bounds.2.2.2.1
    have hlt : roundUnits (k * perOne) 1 < limit :=
      Nat.lt_of_le_of_lt (roundUnits_le_of_le_mul representable_maxFinite hfinite)
        representable_maxFinite.1
    have hnormal : smallestNormal * 1 ≤ k * perOne := by
      rw [Nat.mul_one]
      exact Nat.le_trans smallestNormal_le_perOne (Nat.le_mul_of_pos_left _ hpos)
    have hle := roundUnits_le_mul Nat.one_pos hnormal
    have hge := mul_le_roundUnits Nat.one_pos hnormal
    rw [Nat.cast_mul, Nat.cast_one, div_one] at hle hge
    exact ⟨_, _, ofUnits_of_lt hlt, hge, hle⟩

theorem bits_le_powerOfTen : 1 <<< 64 ≤ Decimal.powerOfTen 308 := by decide +kernel

/-- The exact digits of a number are rounded to no more than a share above them. -/
theorem within_ofNat {k : Nat} (hk : k < 1 <<< 64) :
    (ofNat k).Within (k * perOne * (1 + roundoff)) := by
  obtain ⟨n, hn, hx, -, hle⟩ := exists_ofNat (Nat.le_trans (Nat.le_of_lt hk) bits_le_powerOfTen)
  exact ⟨n, hn, hx, hle⟩

end Binary64

namespace Numeral

open Binary64

theorem powerOfTen_mono {j k : Nat} (h : j ≤ k) :
    Decimal.powerOfTen j ≤ Decimal.powerOfTen k :=
  Nat.pow_le_pow_right (by decide) h

theorem ten_le_pow {k : Nat} (hk : 1 ≤ k) : (10 : ℚ) ≤ 10 ^ k :=
  le_self_pow₀ (by norm_num) (by omega)

/-- The powers of ten that are doubles are so up to a share. -/
theorem exists_tenTo {k : Nat} (hk : k ≤ 308) :
    ∃ n h, tenTo k = .finite false n h ∧ (10 : ℚ) ^ k * perOne * (1 - roundoff) ≤ n ∧
      (n : ℚ) ≤ 10 ^ k * perOne * (1 + roundoff) := by
  rw [← Decimal.cast_powerOfTen]
  exact exists_ofNat (powerOfTen_mono hk)

/-- A quotient by a power of ten is one quotient of units. -/
theorem exists_div_tenTo {m : Nat} (hm : Representable m) {k : Nat} (hk : k ≤ 308) :
    ∃ n : Nat, 0 < n ∧ perOne ≤ n ∧ (10 : ℚ) ^ k * perOne * (1 - roundoff) ≤ n ∧
      (n : ℚ) ≤ 10 ^ k * perOne * (1 + roundoff) ∧
      finite false m hm / tenTo k = ofUnits false (m * perOne) n := by
  obtain ⟨n, hn, htenTo, hge, hle⟩ := exists_tenTo hk
  have hunits : perOne ≤ n := by
    obtain ⟨place, hplace, hle⟩ := atLeastOne_tenTo k
    rw [htenTo] at hplace
    cases hplace
    exact Int.ofNat_le.1 hle
  have hpos : 0 < n := Nat.lt_of_lt_of_le perOne_pos hunits
  exact ⟨n, hpos, hunits, hge, hle, htenTo ▸ finite_div_finite hm hn hpos⟩

/-- A product with a power of ten is one quotient of units. -/
theorem exists_mul_tenTo {m : Nat} (hm : Representable m) {k : Nat} (hk : k ≤ 308) :
    ∃ n : Nat, (10 : ℚ) ^ k * perOne * (1 - roundoff) ≤ n ∧
      (n : ℚ) ≤ 10 ^ k * perOne * (1 + roundoff) ∧
      finite false m hm * tenTo k = ofUnits false (m * n) perOne := by
  obtain ⟨n, hn, htenTo, hge, hle⟩ := exists_tenTo hk
  exact ⟨n, hge, hle, htenTo ▸ finite_mul_finite hm hn⟩

/-- One division by a power of ten adds three shares at most. -/
theorem within_div_tenTo {x : Binary64} {bound : ℚ} (hx : x.Within bound) {k : Nat} (hk : k ≤ 308) :
    (x / tenTo k).Within
      (max (smallestNormal : ℚ) (bound / 10 ^ k * ((1 + roundoff) / (1 - roundoff)))) := by
  obtain ⟨m, hm, rfl, hle⟩ := hx
  obtain ⟨n, hpos, hunits, hge, -, hquotient⟩ := exists_div_tenTo hm hk
  have hone : (0 : ℚ) < 1 - roundoff := by norm_num [roundoff]
  have hper : (0 : ℚ) < perOne := Nat.cast_pos.2 perOne_pos
  have hbelow : (0 : ℚ) < 10 ^ k * perOne * (1 - roundoff) :=
    mul_pos (mul_pos (pow_pos (by norm_num) k) hper) hone
  rw [hquotient]
  have hfinite : m * perOne ≤ maxFinite * n := by
    exact Nat.mul_le_mul (le_maxFinite hm) hunits
  refine (within_ofUnits hpos hfinite).mono (max_le_max_left _ ?_)
  have hbound : 0 ≤ bound := (Nat.cast_nonneg m).trans hle
  have hroundoff := roundoff_pos
  rw [Nat.cast_mul]
  generalize (perOne : ℚ) = one at hper hbelow hge ⊢
  calc (m * one) / n * (1 + roundoff)
      ≤ bound * one / (10 ^ k * one * (1 - roundoff)) * (1 + roundoff) := by gcongr
    _ = bound / 10 ^ k * ((1 + roundoff) / (1 - roundoff)) := by field_simp

/-- One multiplication by a power of ten adds two shares at most, if it stays finite. -/
theorem within_mul_tenTo {x : Binary64} {bound : ℚ} (hx : x.Within bound) {k : Nat} (hk : k ≤ 308)
    (hfinite : bound * 10 ^ k * (1 + roundoff) ≤ maxFinite) :
    (x * tenTo k).Within (max (smallestNormal : ℚ) (bound * 10 ^ k * (1 + roundoff) ^ 2)) := by
  obtain ⟨m, hm, rfl, hle⟩ := hx
  obtain ⟨n, -, hpower, hproduct⟩ := exists_mul_tenTo hm hk
  have hper : (0 : ℚ) < perOne := Nat.cast_pos.2 perOne_pos
  have hroundoff := roundoff_pos
  have hbound : 0 ≤ bound := (Nat.cast_nonneg m).trans hle
  have hexact : ((m * n : Nat) : ℚ) ≤ bound * 10 ^ k * (1 + roundoff) * perOne := by
    rw [Nat.cast_mul]
    generalize (perOne : ℚ) = one at hper hpower ⊢
    calc (m * n : ℚ) ≤ bound * (10 ^ k * one * (1 + roundoff)) := by gcongr
      _ = bound * 10 ^ k * (1 + roundoff) * one := by ring
  have hnat : m * n ≤ maxFinite * perOne := by
    have hcast : ((m * n : Nat) : ℚ) ≤ (maxFinite * perOne : Nat) := by
      rw [Nat.cast_mul maxFinite]
      exact hexact.trans (mul_le_mul_of_nonneg_right hfinite hper.le)
    exact Nat.cast_le.1 hcast
  rw [hproduct]
  refine (within_ofUnits perOne_pos hnat).mono (max_le_max_left _ ?_)
  calc ((m * n : Nat) : ℚ) / perOne * (1 + roundoff)
      ≤ bound * 10 ^ k * (1 + roundoff) * (1 + roundoff) := by
        apply mul_le_mul_of_nonneg_right _ (by linarith)
        rwa [div_le_iff₀ hper]
    _ = bound * 10 ^ k * (1 + roundoff) ^ 2 := by ring

/-- The share that scanning adds at most: three roundings up, and two divisors rounded down. -/
def growth : ℚ := (1 + roundoff) ^ 3 / (1 - roundoff) ^ 2

theorem roundoff_lt_one : roundoff < 1 := by norm_num [roundoff]

theorem growth_nonneg : 0 ≤ growth := by norm_num [growth, roundoff]

theorem scale?_of_nonneg {x : Binary64} {e : Int} (he : 0 ≤ e) (hle : e ≤ 308) :
    scale? x e =
      if (x * tenTo e.natAbs).isFinite then some (x * tenTo e.natAbs) else none := by
  rw [scale?, if_neg (by omega), if_neg (by omega)]

theorem scale?_of_neg {x : Binary64} {e : Int} (he : e < 0) (hge : -308 ≤ e) :
    scale? x e = some (x / tenTo e.natAbs) := by
  rw [scale?, if_neg (by omega), if_pos he]

theorem scale?_of_lt {x : Binary64} {e : Int} (hlt : e < -308) :
    scale? x e = if x = .zero false then some x else scale? (x / tenTo 308) (e + 308) := by
  rw [scale?, if_pos (by omega)]
  split_ifs with hzero hnonneg
  · rfl
  · omega
  · rfl

section Scaled

variable {k : Nat} {e : Int} {bound : ℚ}

theorem exact_nonneg (k : Nat) (e : Int) : 0 ≤ k * (10 : ℚ) ^ e * perOne :=
  mul_nonneg (mul_nonneg (Nat.cast_nonneg k) (zpow_nonneg (by norm_num) e)) (Nat.cast_nonneg _)

/-- A power of ten beyond the range leaves nothing but zero below it. -/
theorem eq_zero_of_large (he : 308 < e) (hexact : k * (10 : ℚ) ^ e * perOne ≤ maxFinite) :
    k = 0 := by
  by_contra hk
  have hone : (1 : ℚ) ≤ k := Nat.one_le_cast.2 (Nat.pos_of_ne_zero hk)
  have hper : (0 : ℚ) ≤ perOne := Nat.cast_nonneg _
  have hle : ((Decimal.powerOfTen 309 * perOne : Nat) : ℚ) ≤ maxFinite := by
    rw [Nat.cast_mul, Decimal.cast_powerOfTen]
    refine le_trans ?_ hexact
    apply mul_le_mul_of_nonneg_right _ hper
    rw [Decimal.ten_zpow_of_nonneg (by omega)]
    calc (10 : ℚ) ^ 309 ≤ 10 ^ e.natAbs := pow_le_pow_right₀ (by norm_num) (by omega)
      _ ≤ k * 10 ^ e.natAbs := le_mul_of_one_le_left (by positivity) hone
  exact absurd (Nat.cast_le.1 hle) (Nat.not_le.2 maxFinite_bounds.2.2.2.2)

theorem exists_scale?_of_nonneg (hk : k < 1 <<< 64) (he : 0 ≤ e)
    (hexact : k * (10 : ℚ) ^ e * perOne ≤ bound)
    (hfinite : bound * (1 + roundoff) ^ 2 ≤ maxFinite) :
    ∃ y, scale? (.ofNat k) e = some y ∧
      y.Within (max (smallestNormal : ℚ) (bound * (1 + roundoff) ^ 3)) := by
  have hroundoff := roundoff_pos
  have hbound : 0 ≤ bound := (exact_nonneg k e).trans hexact
  by_cases hle : e ≤ 308
  · rw [Decimal.ten_zpow_of_nonneg he] at hexact
    have hproduct : k * perOne * (1 + roundoff) * 10 ^ e.natAbs * (1 + roundoff) ≤ maxFinite := by
      calc k * perOne * (1 + roundoff) * 10 ^ e.natAbs * (1 + roundoff)
          = k * 10 ^ e.natAbs * perOne * (1 + roundoff) ^ 2 := by ring
        _ ≤ bound * (1 + roundoff) ^ 2 := by gcongr
        _ ≤ maxFinite := hfinite
    have hy := within_mul_tenTo (within_ofNat hk) (k := e.natAbs) (by omega) hproduct
    have hisFinite : (Binary64.ofNat k * tenTo e.natAbs).isFinite := by
      obtain ⟨n, hn, hy, -⟩ := hy
      rw [hy]
      rfl
    refine ⟨_, by rw [scale?_of_nonneg he hle, if_pos hisFinite], hy.mono (max_le_max_left _ ?_)⟩
    calc k * perOne * (1 + roundoff) * 10 ^ e.natAbs * (1 + roundoff) ^ 2
        = k * 10 ^ e.natAbs * perOne * (1 + roundoff) ^ 3 := by ring
      _ ≤ bound * (1 + roundoff) ^ 3 := by gcongr
  · have hfits : k * (10 : ℚ) ^ e * perOne ≤ maxFinite := by
      calc k * (10 : ℚ) ^ e * perOne ≤ bound := hexact
        _ ≤ bound * (1 + roundoff) ^ 2 := le_mul_of_one_le_right hbound (by nlinarith)
        _ ≤ maxFinite := hfinite
    have hzero := eq_zero_of_large (not_le.1 hle) hfits
    subst hzero
    refine ⟨.zero false, ?_, 0, representable_zero, rfl, ?_⟩
    · rw [ofNat_zero, scale?, if_pos (by omega), if_pos rfl]
    · rw [Nat.cast_zero]
      exact le_max_of_le_left (Nat.cast_nonneg _)

theorem exists_scale?_of_neg (hk : k < 1 <<< 64) (he : e < 0) (hge : -308 ≤ e)
    (hexact : k * (10 : ℚ) ^ e * perOne ≤ bound) :
    ∃ y, scale? (.ofNat k) e = some y ∧ y.Within
      (max (smallestNormal : ℚ) (bound * ((1 + roundoff) ^ 2 / (1 - roundoff)))) := by
  have hroundoff := roundoff_pos
  have hone : 0 < 1 - roundoff := sub_pos.2 roundoff_lt_one
  have hy := within_div_tenTo (within_ofNat hk) (k := e.natAbs) (by omega)
  refine ⟨_, scale?_of_neg he hge, hy.mono (max_le_max_left _ ?_)⟩
  rw [Decimal.ten_zpow_of_neg he] at hexact
  calc k * perOne * (1 + roundoff) / 10 ^ e.natAbs * ((1 + roundoff) / (1 - roundoff))
      = k * (10 ^ e.natAbs)⁻¹ * perOne * ((1 + roundoff) ^ 2 / (1 - roundoff)) := by ring
    _ ≤ bound * ((1 + roundoff) ^ 2 / (1 - roundoff)) := by gcongr

theorem exists_scale?_of_lt (hk : k < 1 <<< 64) (hlt : e < -308) (hge : -616 ≤ e)
    (hexact : k * (10 : ℚ) ^ e * perOne ≤ bound) :
    ∃ y, scale? (.ofNat k) e = some y ∧ y.Within (max (smallestNormal : ℚ) (bound * growth)) := by
  have hroundoff := roundoff_pos
  have hone : 0 < 1 - roundoff := sub_pos.2 roundoff_lt_one
  rw [scale?_of_lt hlt]
  split_ifs with hzero
  · refine ⟨_, rfl, 0, representable_zero, hzero, ?_⟩
    rw [Nat.cast_zero]
    exact le_max_of_le_left (Nat.cast_nonneg _)
  · -- the first division by `10 ^ 308`, the second by what is left, at least ten
    have hx := within_div_tenTo (within_ofNat hk) (le_refl 308)
    have hy := within_div_tenTo hx (k := (e + 308).natAbs) (by omega)
    refine ⟨_, scale?_of_neg (by omega) (by omega), hy.mono (max_le (le_max_left _ _) ?_)⟩
    have hpower : (10 : ℚ) ^ e = (10 ^ 308 * 10 ^ (e + 308).natAbs)⁻¹ := by
      rw [Decimal.ten_zpow_of_neg (by omega), ← pow_add]
      congr 2
      omega
    rw [hpower] at hexact
    rcases max_choice (smallestNormal : ℚ)
      (k * perOne * (1 + roundoff) / 10 ^ 308 * ((1 + roundoff) / (1 - roundoff))) with h | h
    · have hten : (1 + roundoff) / (1 - roundoff) ≤ 10 := by norm_num [roundoff]
      have hpow : (10 : ℚ) ≤ 10 ^ (e + 308).natAbs := ten_le_pow (by omega)
      rw [h, div_mul_eq_mul_div]
      apply le_max_of_le_left
      rw [div_le_iff₀ (by positivity)]
      exact mul_le_mul_of_nonneg_left (hten.trans hpow) (Nat.cast_nonneg _)
    · rw [h]
      apply le_max_of_le_right
      calc k * perOne * (1 + roundoff) / 10 ^ 308 * ((1 + roundoff) / (1 - roundoff)) /
            10 ^ (e + 308).natAbs * ((1 + roundoff) / (1 - roundoff))
          = k * (10 ^ 308 * 10 ^ (e + 308).natAbs)⁻¹ * perOne * growth := by
            rw [growth]
            field_simp
        _ ≤ bound * growth := mul_le_mul_of_nonneg_right hexact growth_nonneg

end Scaled

/-- Scaling the digits of a number that is small enough gives a finite double, hardly larger than the
exact one. -/
theorem exists_scale? {k : Nat} (hk : k < 1 <<< 64) {e : Int} (he : -616 ≤ e) {bound : ℚ}
    (hexact : k * (10 : ℚ) ^ e * perOne ≤ bound)
    (hfinite : bound * (1 + roundoff) ^ 2 ≤ maxFinite) :
    ∃ y, scale? (.ofNat k) e = some y ∧
      y.Within (max (smallestNormal : ℚ) (bound * growth)) := by
  have hbound : 0 ≤ bound := (exact_nonneg k e).trans hexact
  by_cases hnonneg : 0 ≤ e
  · obtain ⟨y, hscale, hy⟩ := exists_scale?_of_nonneg hk hnonneg hexact hfinite
    refine ⟨y, hscale, hy.mono (max_le_max_left _ (mul_le_mul_of_nonneg_left ?_ hbound))⟩
    norm_num [growth, roundoff]
  · by_cases hge : -308 ≤ e
    · obtain ⟨y, hscale, hy⟩ := exists_scale?_of_neg hk (not_le.1 hnonneg) hge hexact
      refine ⟨y, hscale, hy.mono (max_le_max_left _ (mul_le_mul_of_nonneg_left ?_ hbound))⟩
      norm_num [growth, roundoff]
    · exact exists_scale?_of_lt hk (not_le.1 hge) he hexact

end Numeral

/-! ## The text of a double -/

namespace Json

open Binary64 Numeral

/-- The numeral that a finite double is written as. -/
def doubleNumeral (negative : Bool) (units : Nat) : Numeral :=
  numberLayout.numeral negative (Decimal.shortest .even units)

variable {negative : Bool} {n : Nat}

theorem doubleText_finite (hn : Representable n) :
    doubleText (.finite negative n hn) = (doubleNumeral negative n).spelled :=
  Decimal.Layout.text_finite rfl rfl hn

theorem wellFormed_doubleNumeral : (doubleNumeral negative n).WellFormed :=
  Decimal.Layout.wellFormed_numeral Decimal.exponent_shortest_of_zero

/-- A double is never written as an integer. -/
theorem integer?_doubleNumeral : (doubleNumeral negative n).integer? = none := by
  have hmarked : ¬ ((doubleNumeral negative n).fraction? = none ∧
      (doubleNumeral negative n).exponent? = none) := by
    unfold doubleNumeral Decimal.Layout.numeral Decimal.Layout.positionalNumeral
      Decimal.Layout.scientificNumeral
    simp only
    split_ifs <;> simp
  rw [Numeral.integer?, if_neg hmarked]

/-- At most sixteen digits stand before the point. -/
theorem length_whole_doubleNumeral : (doubleNumeral negative n).whole.length ≤ 16 := by
  unfold doubleNumeral Decimal.Layout.numeral Decimal.Layout.positionalNumeral
    Decimal.Layout.scientificNumeral
  simp only
  split_ifs with hpositional
  all_goals
    simp only [numberLayout, decide_eq_true_eq] at hpositional
    simp only [List.length_append, List.length_replicate, List.length_take, List.length_singleton]
    omega

theorem ofDigitChars_whole_doubleNumeral_lt :
    Nat.ofDigitChars 10 (doubleNumeral negative n).whole 0 < 1 <<< 64 := by
  calc Nat.ofDigitChars 10 (doubleNumeral negative n).whole 0
      < 10 ^ (doubleNumeral negative n).whole.length :=
        ofDigitChars_lt wellFormed_doubleNumeral.whole_digits
    _ ≤ 10 ^ 16 := Nat.pow_le_pow_right (by decide) length_whole_doubleNumeral
    _ ≤ 1 <<< 64 := by decide

theorem spacing_le_lastStep (hn : Representable n) : spacing n ≤ lastStep := by
  have hlog : n.log2 ≤ 2097 := by
    rw [← maxFinite_bounds.2.1]
    exact log2_mono (le_maxFinite hn)
  exact Nat.le_of_dvd (shiftLeft_pos _) (shiftLeft_dvd (by omega))

/-- Three steps below the largest double there is room for two roundings. -/
theorem midpoint_mul_le (hn : Representable n) (hfar : n + 3 * lastStep ≤ maxFinite) :
    (n + spacing n / 2 : ℚ) * (1 + roundoff) ^ 2 ≤ maxFinite := by
  have hspacing : (spacing n : ℚ) ≤ lastStep := Nat.cast_le.2 (spacing_le_lastStep hn)
  have hstep : (0 : ℚ) ≤ lastStep := Nat.cast_nonneg _
  have hle : (n : ℚ) + 3 * lastStep ≤ maxFinite := by exact_mod_cast hfar
  rw [cast_maxFinite] at hle ⊢
  generalize (lastStep : ℚ) = step at *
  calc (n + spacing n / 2 : ℚ) * (1 + roundoff) ^ 2
      ≤ (step * 9007199254740991 - 3 * step + step / 2) * (1 + roundoff) ^ 2 := by
        apply mul_le_mul_of_nonneg_right _ (by positivity)
        linarith
    _ = step * ((9007199254740988 + 1 / 2) * (1 + roundoff) ^ 2) := by ring
    _ ≤ step * 9007199254740991 := by
        apply mul_le_mul_of_nonneg_left _ hstep
        norm_num [roundoff]

/-- The doubles at both ends: zero is read as it was, and the three largest, of which rounding could
make an infinity, are read as finite doubles too. -/
theorem scan?_extremes : ∀ negative,
    (doubleNumeral negative 0).scan? = some (.zero negative) ∧
    ∀ j < 3, (doubleNumeral negative (lastStep * (1 <<< 53 - 1 - j))).scan?.any (fun
      | .finite s _ _ => s == negative
      | _ => false) = true := by
  decide +kernel

/-- What a text is read as when it is the text of a finite double: a double of the same sign, and no
more than the rounding above the midpoint. -/
theorem exists_scan?_of_far (hn : Representable n) (hfar : n + 3 * lastStep ≤ maxFinite) :
    ∃ m hm, (doubleNumeral negative n).scan? = some (.finite negative m hm) ∧
      (m : ℚ) ≤ max (smallestNormal : ℚ) ((n + spacing n / 2) * growth) := by
  obtain ⟨k, hk, e, he, hexact, hscan⟩ :=
    exists_kept (doubleNumeral negative n) ofDigitChars_whole_doubleNumeral_lt
  have hexponent : -343 ≤ e := by
    have hgrid := Decimal.le_exponent_shortest .even n
    have hlayout := Decimal.Layout.exponent_numeral numberLayout negative (Decimal.shortest .even n)
    have hmin : -343 ≤ min (-1) (Decimal.shortest .even n).exponent := by omega
    exact (hmin.trans hlayout).trans he
  have hbound : k * (10 : ℚ) ^ e * perOne ≤ n + spacing n / 2 := by
    have hvalue : (doubleNumeral negative n).magnitude.toRat = (Decimal.shortest .even n).toRat :=
      Decimal.Layout.toRat_numeral _ _ _
    rw [hvalue] at hexact
    exact (mul_le_mul_of_nonneg_right hexact (Nat.cast_nonneg _)).trans
      (Decimal.toRat_shortest_le .even n)
  obtain ⟨y, hscale, m, hm, rfl, hle⟩ :=
    exists_scale? hk (by omega) hbound (midpoint_mul_le hn hfar)
  refine ⟨m, hm, ?_, hle⟩
  have hsign : (doubleNumeral negative n).negative = negative :=
    Decimal.Layout.negative_numeral _ _ _
  rw [hscan, hscale, hsign]
  cases negative <;> rfl

/-- No double is more than seven shares above one of the three largest. -/
theorem maxFinite_le_last {j : Nat} (hj : j < 3) :
    (maxFinite : ℚ) ≤ (lastStep * (1 <<< 53 - 1 - j) : Nat) * (1 + 7 * roundoff) := by
  have hleast : (lastStep * 9007199254740989 : Nat) ≤ lastStep * (1 <<< 53 - 1 - j) := by
    apply Nat.mul_le_mul_left
    have hcount : 1 <<< 53 - 1 = 9007199254740991 := rfl
    omega
  have hstep : (0 : ℚ) ≤ lastStep := Nat.cast_nonneg _
  calc (maxFinite : ℚ) = lastStep * 9007199254740991 := cast_maxFinite
    _ ≤ lastStep * (9007199254740989 * (1 + 7 * roundoff)) := by
        apply mul_le_mul_of_nonneg_left _ hstep
        norm_num [roundoff]
    _ = (lastStep * 9007199254740989 : Nat) * (1 + 7 * roundoff) := by
        push_cast
        ring
    _ ≤ (lastStep * (1 <<< 53 - 1 - j) : Nat) * (1 + 7 * roundoff) := by
        apply mul_le_mul_of_nonneg_right (Nat.cast_le.2 hleast)
        norm_num [roundoff]

/-- **Every finite double is read back as a finite double.** One of normal size comes back at most
seven shares larger. -/
theorem exists_scan?_doubleNumeral (negative : Bool) (hn : Representable n) :
    ∃ m hm, (doubleNumeral negative n).scan? = some (.finite negative m hm) ∧
      (smallestNormal ≤ n → (m : ℚ) ≤ n * (1 + 7 * roundoff)) := by
  have hroundoff := roundoff_pos
  rcases le_or_eq_last hn with hfar | ⟨j, hj, hlast⟩
  · obtain ⟨m, hm, hscan, hle⟩ := exists_scan?_of_far hn hfar
    refine ⟨m, hm, hscan, fun hnormal => hle.trans (max_le ?_ ?_)⟩
    · calc (smallestNormal : ℚ) ≤ n := Nat.cast_le.2 hnormal
        _ ≤ n * (1 + 7 * roundoff) := le_mul_of_one_le_right (Nat.cast_nonneg n) (by linarith)
    · have hspacing : (spacing n : ℚ) ≤ 2 * roundoff * n := by
        have hone : smallestNormal * 1 ≤ n := by rwa [Nat.mul_one]
        have hstep := spacing_div_le Nat.one_pos hone
        rwa [Nat.div_one, Nat.cast_one, div_one] at hstep
      calc (n + spacing n / 2 : ℚ) * growth ≤ (n + roundoff * n) * growth := by
            apply mul_le_mul_of_nonneg_right _ growth_nonneg
            linarith
        _ = n * ((1 + roundoff) * growth) := by ring
        _ ≤ n * (1 + 7 * roundoff) := by
            apply mul_le_mul_of_nonneg_left _ (Nat.cast_nonneg n)
            norm_num [growth, roundoff]
  · have hlarge := (scan?_extremes negative).2 j hj
    rw [← hlast] at hlarge
    cases hscan : (doubleNumeral negative n).scan? with
    | none =>
        rw [hscan] at hlarge
        cases hlarge
    | some x =>
        rw [hscan] at hlarge
        cases x with
        | nan => cases hlarge
        | infinite s => cases hlarge
        | finite s m hm =>
            have hsign : s = negative := by simpa using hlarge
            subst hsign
            exact ⟨m, hm, rfl, fun _ => (Nat.cast_le.2 (le_maxFinite hm)).trans
              (hlast ▸ maxFinite_le_last hj)⟩

end Json

end PerfGate
