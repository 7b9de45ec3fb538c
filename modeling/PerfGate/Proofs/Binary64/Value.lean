import Mathlib.Data.Rat.Floor
import Mathlib.Tactic.FieldSimp
import PerfGate.Proofs.Binary64.Nearest

/-!
# Binary64 — the value of a double

A finite double is a number. One rounding moves a number by a share of `roundoff` and half a unit at
most (`abs_nearest_value_sub_le`), and the value of a double not at all (`nearest_value_eq`). The
whole part of a double is its value without the fraction (`truncate?_eq_some_iff`).
-/

namespace PerfGate.Binary64

/-- The value of a finite double. -/
def value (x : Binary64) : ℚ := x.units / perOne

/-- A number that is the value of a double. -/
def IsValue (q : ℚ) : Prop := ∃ x : Binary64, x.isFinite ∧ x.value = q

/-- Half of the smallest positive double. -/
def halfUnit : ℚ := 1 / (2 * perOne)

theorem cast_perOne_pos : (0 : ℚ) < perOne := by exact_mod_cast perOne_pos

theorem halfUnit_pos : 0 < halfUnit := by
  have := cast_perOne_pos
  unfold halfUnit
  positivity

theorem value_nonneg {x : Binary64} (h : 0 ≤ x.units) : 0 ≤ x.value :=
  div_nonneg (Int.cast_nonneg h) cast_perOne_pos.le

/-- A number of 53 bits over a power of two is the value of a double. -/
theorem value_ofRatio {n k : Nat} (hn : n < 1 <<< 53) (hk : k ≤ 1074) :
    (ofRatio false n (1 <<< k)).isFinite ∧ (ofRatio false n (1 <<< k)).value = n / 2 ^ k := by
  have hperOne : perOne = 1 <<< (1074 - k) * 1 <<< k := by
    rw [← shiftLeft_add, Nat.sub_add_cancel hk]
    rfl
  have hm : Representable (n * 1 <<< (1074 - k)) := representable_mul_shiftLeft hn (by omega)
  have hunits : roundUnits (n * perOne) (1 <<< k) = n * 1 <<< (1074 - k) := by
    apply roundUnits_eq hm (shiftLeft_pos k)
    rw [hperOne, Nat.mul_assoc]
  have hpower : ((1 <<< k : Nat) : ℚ) = 2 ^ k := by
    rw [Nat.one_shiftLeft]
    push_cast
    rfl
  have hstep : ((1 <<< (1074 - k) : Nat) : ℚ) ≠ 0 := Nat.cast_ne_zero.2 (shiftLeft_pos _).ne'
  rw [ofRatio, ofUnits_of_lt (by rw [hunits]; exact hm.1)]
  refine ⟨rfl, ?_⟩
  show (((roundUnits (n * perOne) (1 <<< k) : Nat) : Int) : ℚ) / perOne = _
  rw [hunits, hperOne, Int.cast_natCast, Nat.cast_mul, Nat.cast_mul, hpower, mul_comm,
    mul_div_mul_left _ _ hstep]

theorem value_ofNat {n : Nat} (hn : n < 1 <<< 53) : (ofNat n).isFinite ∧ (ofNat n).value = n := by
  have h := value_ofRatio hn (Nat.zero_le 1074)
  rw [pow_zero, div_one] at h
  exact h

/-- A finite double is at its value on the line of units. -/
theorem value_finite {negative : Bool} {n : Nat} (hn : Representable n) :
    (finite negative n hn).value = if negative then -((n : ℚ) / perOne) else (n : ℚ) / perOne := by
  unfold value units signed
  cases negative with
  | false => simp
  | true => simp [neg_div]

theorem abs_value_finite {negative : Bool} {n : Nat} (hn : Representable n) :
    |(finite negative n hn).value| = (n : ℚ) / perOne := by
  have hnonneg : (0 : ℚ) ≤ n / perOne := div_nonneg (Nat.cast_nonneg n) cast_perOne_pos.le
  rw [value_finite]
  split
  · rw [abs_neg, abs_of_nonneg hnonneg]
  · exact abs_of_nonneg hnonneg

/-! ## The whole part -/

/-- A number without its fraction: towards zero, on either side of it. -/
def truncated (q : ℚ) : Int := if q < 0 then ⌈q⌉ else ⌊q⌋

theorem truncated_of_nonneg {q : ℚ} (h : 0 ≤ q) : truncated q = ⌊q⌋ := if_neg (not_lt.2 h)

theorem truncated_neg (q : ℚ) : truncated (-q) = -truncated q := by
  unfold truncated
  rcases lt_trichotomy q 0 with hneg | rfl | hpos
  · rw [if_neg (by linarith), if_pos hneg, Int.floor_neg]
  · simp
  · rw [if_pos (by linarith), if_neg (not_lt.2 hpos.le), Int.ceil_neg]

theorem truncated_intCast (i : Int) : truncated (i : ℚ) = i := by
  unfold truncated
  split <;> simp

/-- The whole part of a double is its value without the fraction, and has no more bits than that. -/
theorem truncate?_eq_some_iff {x : Binary64} {i : Int} :
    x.truncate? = some i ↔ x.isFinite ∧ i = truncated x.value := by
  cases x with
  | nan => simp [truncate?, isFinite]
  | infinite s => simp [truncate?, isFinite]
  | finite s n hn =>
      have hwhole : truncated ((n : ℚ) / perOne) = (n / perOne : Nat) := by
        rw [truncated_of_nonneg (div_nonneg (Nat.cast_nonneg n) cast_perOne_pos.le),
          Rat.floor_natCast_div_natCast]
        rfl
      have htruncated : truncated (finite s n hn).value = signed s (n / perOne) := by
        rw [value_finite]
        cases s with
        | false => rw [if_neg Bool.false_ne_true, hwhole]; rfl
        | true => rw [if_pos rfl, truncated_neg, hwhole]; rfl
      simp only [truncate?, isFinite, htruncated, Option.some.injEq, true_and, eq_comm]

/-- A double is below a power of two in magnitude if its whole part is. -/
theorem natAbs_truncated_lt_iff {x : Binary64} (hx : x.isFinite) {k : Nat} :
    (truncated x.value).natAbs < 1 <<< k ↔ |x.value| < 2 ^ k := by
  cases x with
  | nan => cases hx
  | infinite s => cases hx
  | finite s n hn =>
      have hwhole : truncated (finite s n hn).value = signed s (n / perOne) :=
        ((truncate?_eq_some_iff.1 rfl).2).symm
      have hpower : (2 : ℚ) ^ k = ((1 <<< k : Nat) : ℚ) := by
        rw [Nat.one_shiftLeft]
        push_cast
        rfl
      rw [hwhole, natAbs_signed, abs_value_finite, hpower, div_lt_iff₀ cast_perOne_pos,
        ← Nat.cast_mul, Nat.cast_lt, Nat.div_lt_iff_lt_mul perOne_pos]

section Nearest

variable {num : Int} {den : Nat} {q : ℚ}

/-- One rounding moves a value by a share of `roundoff` and half a unit at most. -/
theorem abs_nearest_value_sub_le (hden : 0 < den) (hq : (num : ℚ) / den = q * perOne) :
    |(nearest num den : ℚ) / perOne - q| ≤ roundoff * |q| + halfUnit := by
  have hpos := cast_perOne_pos
  have hunits := abs_nearest_sub_le num hden
  rw [hq, abs_mul, abs_of_pos hpos] at hunits
  have hscale : (nearest num den : ℚ) / perOne - q = (nearest num den - q * perOne) / perOne := by
    rw [sub_div, mul_div_cancel_right₀ _ hpos.ne']
  rw [hscale, abs_div, abs_of_pos hpos, div_le_iff₀ hpos]
  calc |(nearest num den : ℚ) - q * perOne| ≤ roundoff * (|q| * perOne) + 1 / 2 := hunits
    _ = (roundoff * |q| + halfUnit) * perOne := by
        rw [add_mul, halfUnit, div_mul_eq_mul_div, one_mul, div_mul_cancel_right₀ hpos.ne']
        ring

/-- The value of a double is not moved. -/
theorem nearest_value_eq (hden : 0 < den) (hq : (num : ℚ) / den = q * perOne) (h : IsValue q) :
    (nearest num den : ℚ) / perOne = q := by
  obtain ⟨x, hx, rfl⟩ := h
  have hpos : (0 : ℚ) < den := by exact_mod_cast hden
  have hnum : num = x.units * den := by
    rw [value, div_mul_cancel₀ _ cast_perOne_pos.ne', div_eq_iff hpos.ne'] at hq
    exact_mod_cast hq
  rw [hnum, nearest_of_representable (representable_units hx) hden]
  rfl

end Nearest

end PerfGate.Binary64
