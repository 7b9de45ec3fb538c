import Mathlib.Algebra.Order.BigOperators.Group.List
import Mathlib.Tactic.GCongr
import Mathlib.Tactic.Positivity
import PerfGate.Proofs.Binary64.Error
import PerfGate.Proofs.Binary64.Order
import PerfGate.Proofs.Binary64.Sum

/-!
# Binary64 — how far a sum is off

An addition of doubles that are not negative is off by a share of one `roundoff` at most. So a sum is
no more roundings away from the exact one than it has terms (`near_sum`), whatever the order of the
terms, and sums in two orders compare alike with all that lies outside of their common range
(`Near.le_iff_le`).
-/

namespace PerfGate.Binary64

/-- A finite double that is no more than `k` roundings away from a number of units. -/
structure Near (k : Nat) (exact : ℚ) (x : Binary64) : Prop where
  isFinite : x.isFinite
  lower : exact * (1 - roundoff) ^ k ≤ x.units
  upper : x.units ≤ exact * (1 + roundoff) ^ k

/-! ## One rounding -/

theorem one_sub_roundoff_pos : 0 < 1 - roundoff := by norm_num [roundoff]

theorem one_add_roundoff_pos : 0 < 1 + roundoff := by norm_num [roundoff]

theorem units_ofUnits {num den : Nat} (h : (ofUnits false num den).isFinite) :
    (ofUnits false num den).units = roundUnits num den := by
  rcases Nat.lt_or_ge (roundUnits num den) limit with hlt | hge
  · rw [ofUnits_of_lt hlt]
    rfl
  · rw [ofUnits_of_le hge] at h
    cases h

/-- A quotient that is not too small. -/
theorem near_ofUnits {num den : Nat} (hden : 0 < den) (hnormal : smallestNormal * den ≤ num)
    (hfinite : (ofUnits false num den).isFinite) :
    Near 1 (num / den) (ofUnits false num den) := by
  refine ⟨hfinite, ?_, ?_⟩
  · rw [units_ofUnits hfinite, pow_one]
    exact mul_le_roundUnits hden hnormal
  · rw [units_ofUnits hfinite, pow_one]
    exact roundUnits_le_mul hden hnormal

/-- A whole number of units: small ones are not rounded at all. -/
theorem near_ofUnits_one {n : Nat} (hlimit : (n : ℚ) * (1 + roundoff) < limit) :
    Near 1 n (ofUnits false n 1) := by
  rcases Nat.lt_or_ge n smallestNormal with hlt | hge
  · have hn := representable_of_lt_smallestNormal hlt
    have hpos : (0 : ℚ) ≤ n := Nat.cast_nonneg n
    rw [ofUnits_one hn]
    refine ⟨rfl, ?_, ?_⟩
    · show (n : ℚ) * (1 - roundoff) ^ 1 ≤ ((n : Int) : ℚ)
      have := roundoff_pos
      push_cast
      nlinarith
    · show ((n : Int) : ℚ) ≤ (n : ℚ) * (1 + roundoff) ^ 1
      have := roundoff_pos
      push_cast
      nlinarith
  · have hnormal : smallestNormal * 1 ≤ n := by rwa [Nat.mul_one]
    have hround : roundUnits n 1 < limit := by
      have hle := roundUnits_le_mul Nat.one_pos hnormal
      have : (roundUnits n 1 : ℚ) < limit := by
        rw [Nat.cast_one, div_one] at hle
        exact hle.trans_lt hlimit
      exact_mod_cast this
    have hfinite : (ofUnits false n 1).isFinite := by
      rw [ofUnits_of_lt hround]
      rfl
    simpa using near_ofUnits Nat.one_pos hnormal hfinite

theorem near_zero (k : Nat) (s : Bool) : Near k 0 (zero s) := by
  refine ⟨rfl, ?_, ?_⟩
  · rw [zero_mul, units_zero, Int.cast_zero]
  · rw [zero_mul, units_zero, Int.cast_zero]

namespace Near

variable {k : Nat} {exact : ℚ} {x y : Binary64}

/-- What is within `j` roundings of a number that is off by `k` already is off by `k + j`. -/
theorem trans {j : Nat} {mid : ℚ} (hy : Near j mid y) (hlower : exact * (1 - roundoff) ^ k ≤ mid)
    (hupper : mid ≤ exact * (1 + roundoff) ^ k) : Near (k + j) exact y := by
  refine ⟨hy.isFinite, ?_, ?_⟩
  · calc exact * (1 - roundoff) ^ (k + j)
        = exact * (1 - roundoff) ^ k * (1 - roundoff) ^ j := by rw [pow_add, mul_assoc]
      _ ≤ mid * (1 - roundoff) ^ j :=
          mul_le_mul_of_nonneg_right hlower (pow_nonneg one_sub_roundoff_pos.le j)
      _ ≤ y.units := hy.lower
  · calc (y.units : ℚ) ≤ mid * (1 + roundoff) ^ j := hy.upper
      _ ≤ exact * (1 + roundoff) ^ k * (1 + roundoff) ^ j :=
          mul_le_mul_of_nonneg_right hupper (pow_nonneg one_add_roundoff_pos.le j)
      _ = exact * (1 + roundoff) ^ (k + j) := by rw [pow_add, mul_assoc]

theorem units_nonneg (hx : Near k exact x) (hexact : 0 ≤ exact) : 0 ≤ x.units := by
  have hlower : 0 ≤ exact * (1 - roundoff) ^ k :=
    mul_nonneg hexact (pow_nonneg one_sub_roundoff_pos.le k)
  exact_mod_cast hlower.trans hx.lower

end Near

/-! ## Sums -/

/-- A finite double that is not negative. -/
def IsAmount (x : Binary64) : Prop := x.isFinite ∧ 0 ≤ x.units

instance (x : Binary64) : Decidable x.IsAmount := inferInstanceAs (Decidable (_ ∧ _))

theorem total_nonneg {xs : List Binary64} (hxs : ∀ x ∈ xs, x.IsAmount) : 0 ≤ total xs := by
  apply List.sum_nonneg
  intro i hi
  obtain ⟨x, hx, rfl⟩ := List.mem_map.1 hi
  exact (hxs x hx).2

theorem near_add {x y : Binary64} (hx : x.IsAmount) (hy : y.IsAmount)
    (hlimit : (x.units + y.units) * (1 + roundoff) < limit) :
    Near 1 (x.units + y.units) (x + y) := by
  obtain ⟨hx, hx0⟩ := hx
  obtain ⟨hy, hy0⟩ := hy
  cases x with
  | nan => cases hx
  | infinite s => cases hx
  | finite s m hm =>
      cases y with
      | nan => cases hy
      | infinite t => cases hy
      | finite t n hn =>
          simp only [units] at hx0 hy0 hlimit ⊢
          rw [finite_add_finite]
          by_cases hzero : signed s m + signed t n = 0
          · have hexact : (signed s m : ℚ) + signed t n = 0 := by exact_mod_cast hzero
            rw [if_pos hzero, hexact]
            exact near_zero 1 _
          · obtain ⟨sum, hsum⟩ := Int.eq_ofNat_of_zero_le (Int.add_nonneg hx0 hy0)
            have hexact : (signed s m : ℚ) + signed t n = sum := by exact_mod_cast hsum
            have hsign : ¬ signed s m + signed t n < 0 := by omega
            rw [if_neg hzero, decide_eq_false hsign, hexact, hsum, Int.natAbs_natCast]
            rw [hexact] at hlimit
            exact near_ofUnits_one hlimit

/-- A sum is no more roundings away from the exact one than it has terms. -/
theorem near_sum {xs : List Binary64} (hxs : ∀ x ∈ xs, x.IsAmount)
    (hlimit : total xs * (1 + roundoff) ^ xs.length < limit) :
    Near xs.length (total xs) (sum xs) := by
  induction xs using List.reverseRecOn with
  | nil =>
      have hzero : Near 0 ((0 : Int) : ℚ) (zero true) := by
        rw [Int.cast_zero]
        exact near_zero 0 true
      exact hzero
  | append_singleton xs x ih =>
      rw [List.forall_mem_append, List.forall_mem_singleton] at hxs
      obtain ⟨hxs, hx⟩ := hxs
      have hsum : sum (xs ++ [x]) = sum xs + x := by
        rw [sum, List.foldl_concat]
        rfl
      have htotal : (total (xs ++ [x]) : ℚ) = total xs + x.units := by
        rw [total_append, total_singleton]
        push_cast
        rfl
      have hgrow : (1 : ℚ) ≤ (1 + roundoff) ^ xs.length :=
        one_le_pow₀ (le_add_of_nonneg_right roundoff_pos.le)
      have htotal0 : (0 : ℚ) ≤ total xs := by exact_mod_cast total_nonneg hxs
      have hx0 : (0 : ℚ) ≤ x.units := by exact_mod_cast hx.2
      rw [htotal, List.length_append, List.length_singleton] at hlimit ⊢
      have hprefix : total xs * (1 + roundoff) ^ xs.length < limit := by
        refine lt_of_le_of_lt ?_ hlimit
        gcongr
        · exact le_add_of_nonneg_right hx0
        · exact le_add_of_nonneg_right roundoff_pos.le
        · exact Nat.le_succ _
      have hnear := ih hxs hprefix
      have hupper : (sum xs).units + x.units ≤ (total xs + x.units) * (1 + roundoff) ^ xs.length := by
        have := hnear.upper
        nlinarith
      have hlower : (total xs + x.units) * (1 - roundoff) ^ xs.length ≤ (sum xs).units + x.units := by
        have := hnear.lower
        have hshrink : (1 - roundoff) ^ xs.length ≤ 1 :=
          pow_le_one₀ one_sub_roundoff_pos.le (sub_le_self 1 roundoff_pos.le)
        nlinarith
      rw [hsum]
      refine (near_add ⟨hnear.isFinite, hnear.units_nonneg htotal0⟩ hx ?_).trans hlower hupper
      calc ((sum xs).units + x.units) * (1 + roundoff)
          ≤ (total xs + x.units) * (1 + roundoff) ^ xs.length * (1 + roundoff) :=
            mul_le_mul_of_nonneg_right hupper one_add_roundoff_pos.le
        _ = (total xs + x.units) * (1 + roundoff) ^ (xs.length + 1) := by rw [pow_succ, mul_assoc]
        _ < limit := hlimit

/-! ## Quotients -/

/-- A quotient by a number of terms is one rounding further away, if it is not too small. -/
theorem Near.div {k n : Nat} {exact : ℚ} {x : Binary64} (hx : Near k exact x) (hn : 0 < n)
    (hlen : n < 1 <<< 53) (hnormal : smallestNormal * n ≤ exact * (1 - roundoff) ^ k) :
    Near (k + 1) (exact / n) (x / ofNat n) := by
  have hunits : ((smallestNormal * n : Nat) : Int) ≤ x.units := by
    have hle : (smallestNormal * n : ℚ) ≤ x.units := hnormal.trans hx.lower
    exact_mod_cast hle
  have hpos : 0 < smallestNormal * n := Nat.mul_pos smallestNormal_pos hn
  have hdiv : (x / ofNat n).isFinite := isFinite_div hx.isFinite (atLeastOne_ofNat hn)
  have hfinite := hx.isFinite
  cases x with
  | nan => cases hfinite
  | infinite s => cases hfinite
  | finite s m hm =>
      cases s with
      | true =>
          simp only [units, signed, if_true] at hunits
          omega
      | false =>
          have hle : smallestNormal * n ≤ m := Int.ofNat_le.1 hunits
          have hden : 0 < n * perOne := Nat.mul_pos hn perOne_pos
          have hquot : finite false m hm / ofNat n = ofUnits false (m * perOne) (n * perOne) := by
            rw [ofNat_eq (representable_mul_shiftLeft hlen (by decide))]
            exact if_neg hden.ne'
          have hratio : ((m * perOne : Nat) : ℚ) / (n * perOne : Nat) = m / n := by
            have hone : (perOne : ℚ) ≠ 0 := by exact_mod_cast perOne_pos.ne'
            push_cast
            exact mul_div_mul_right _ _ hone
          have hround : Near 1 ((m : ℚ) / n) (ofUnits false (m * perOne) (n * perOne)) := by
            rw [← hratio]
            refine near_ofUnits hden ?_ (by rwa [← hquot])
            rw [← Nat.mul_assoc]
            exact Nat.mul_le_mul_right perOne hle
          have hn0 : (0 : ℚ) ≤ n := Nat.cast_nonneg n
          rw [hquot]
          refine hround.trans ?_ ?_
          · rw [div_mul_eq_mul_div]
            exact div_le_div_of_nonneg_right hx.lower hn0
          · rw [div_mul_eq_mul_div]
            exact div_le_div_of_nonneg_right hx.upper hn0

/-! ## Comparisons -/

/-- A finite double that is out of the reach of `k` roundings. -/
def Apart (k : Nat) (exact : ℚ) (f : Binary64) : Prop :=
  f.isFinite ∧ (f.units ≤ exact * (1 - roundoff) ^ k ∨ exact * (1 + roundoff) ^ k < f.units)

instance (k : Nat) (exact : ℚ) (f : Binary64) : Decidable (Apart k exact f) :=
  inferInstanceAs (Decidable (_ ∧ (_ ∨ _)))

theorem le_iff_units_le {x y : Binary64} (hx : x.isFinite) (hy : y.isFinite) :
    x ≤ y ↔ x.units ≤ y.units := by
  cases x with
  | nan => cases hx
  | infinite s => cases hx
  | finite s m hm =>
      cases y with
      | nan => cases hy
      | infinite t => cases hy
      | finite t n hn => exact finite_le_iff

theorem Near.le_iff_le {k : Nat} {exact : ℚ} {x y f : Binary64} (hx : Near k exact x)
    (hy : Near k exact y) (hf : Apart k exact f) : f ≤ x ↔ f ≤ y := by
  obtain ⟨hfinite, hreach⟩ := hf
  rw [le_iff_units_le hfinite hx.isFinite, le_iff_units_le hfinite hy.isFinite]
  rcases hreach with hbelow | habove
  · have hle : ∀ {z : Binary64}, Near k exact z → f.units ≤ z.units :=
      fun hz => by exact_mod_cast hbelow.trans hz.lower
    exact iff_of_true (hle hx) (hle hy)
  · have hlt : ∀ {z : Binary64}, Near k exact z → ¬ f.units ≤ z.units := by
      intro z hz hle
      have hcast : (f.units : ℚ) ≤ z.units := by exact_mod_cast hle
      exact absurd (habove.trans_le hcast) (not_lt.2 hz.upper)
    exact iff_of_false (hlt hx) (hlt hy)

end PerfGate.Binary64
