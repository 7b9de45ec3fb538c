import Mathlib.Algebra.Order.Field.Basic
import Mathlib.Data.Nat.Cast.Order.Field
import Mathlib.Data.Rat.Cast.Order
import Mathlib.Tactic.Linarith
import Mathlib.Tactic.Ring
import PerfGate.Proofs.Binary64.Bounds

/-!
# Binary64 — how far rounding moves a number

Rounding moves a number by half a step at most. From `2 ^ 52` units on, where a step is at most a
`2 ^ 52`th of the number, that is a share of at most `roundoff`; below, nothing is moved beyond
`2 ^ 52` units. The bounds are on exact quotients of units.
-/

namespace PerfGate

/-! ## Whole quotients -/

/-- A rounded quotient is at most half above the exact one. -/
theorem roundDiv_mul_le (num den : Nat) : 2 * (roundDiv num den * den) ≤ 2 * num + den := by
  have hsplit := Nat.div_add_mod' num den
  unfold roundDiv
  simp only
  split_ifs with h
  · omega
  · rw [Nat.add_mul, Nat.one_mul]
    omega

/-- A rounded quotient is at most half below the exact one. -/
theorem le_roundDiv_mul {num den : Nat} (hden : 0 < den) :
    2 * num ≤ 2 * (roundDiv num den * den) + den := by
  have hsplit := Nat.div_add_mod' num den
  have hrest := Nat.mod_lt num hden
  unfold roundDiv
  simp only
  split_ifs with h
  · omega
  · rw [Nat.add_mul, Nat.one_mul]
    omega

namespace Binary64

/-- The share by which one rounding moves a number at most. -/
def roundoff : ℚ := 1 / 2 ^ 53

theorem roundoff_pos : 0 < roundoff := by norm_num [roundoff]

/-- The magnitude from which on steps are relative: `2 ^ -1022` in units. -/
def smallestNormal : Nat := 1 <<< 52

theorem representable_smallestNormal : Representable smallestNormal :=
  representable_shiftLeft (by decide)

theorem smallestNormal_pos : 0 < smallestNormal := shiftLeft_pos 52

/-- Below the smallest normal magnitude every whole number of units is a double. -/
theorem representable_of_lt_smallestNormal {n : Nat} (h : n < smallestNormal) : Representable n := by
  have hn : Representable (n * 1 <<< 0) :=
    representable_mul_shiftLeft (Nat.lt_trans h (shiftLeft_lt (by decide))) (Nat.zero_le _)
  simpa using hn

theorem spacing_mul_le {q : Nat} (hq : smallestNormal ≤ q) : spacing q * smallestNormal ≤ q := by
  have hlog : 52 ≤ q.log2 := by
    rw [← log2_shiftLeft 52]
    exact log2_mono hq
  calc spacing q * smallestNormal = 1 <<< q.log2 := by
        rw [spacing, smallestNormal, ← shiftLeft_add, Nat.sub_add_cancel hlog]
    _ ≤ q := by
        rw [Nat.one_shiftLeft]
        exact Nat.log2_self_le (by have := smallestNormal_pos; omega)

/-! ## Units -/

variable {num den : Nat}

/-- The step at a quotient is no more than two shares of it. -/
theorem spacing_div_le (hden : 0 < den) (h : smallestNormal * den ≤ num) :
    (spacing (num / den) : ℚ) ≤ 2 * roundoff * (num / den) := by
  have hq : smallestNormal ≤ num / den := (Nat.le_div_iff_mul_le hden).2 h
  have hstep : ((spacing (num / den) * smallestNormal : Nat) : ℚ) ≤ (num / den : Nat) := by
    exact_mod_cast spacing_mul_le hq
  have hfloor : ((num / den : Nat) : ℚ) ≤ num / den := Nat.cast_div_le
  have hsmallest : (smallestNormal : ℚ) = 2 ^ 52 := by
    rw [smallestNormal, Nat.one_shiftLeft]
    push_cast
    rfl
  rw [Nat.cast_mul, hsmallest] at hstep
  unfold roundoff
  linarith

theorem cast_roundUnits (num den : Nat) :
    (roundUnits num den : ℚ) =
      spacing (num / den) * roundDiv num (den * spacing (num / den)) :=
  Nat.cast_mul _ _

theorem roundUnits_le_mul (hden : 0 < den) (h : smallestNormal * den ≤ num) :
    (roundUnits num den : ℚ) ≤ num / den * (1 + roundoff) := by
  have hround : ((2 * (roundDiv num (den * spacing (num / den)) * (den * spacing (num / den))) :
      Nat) : ℚ) ≤ (2 * num + den * spacing (num / den) : Nat) := by
    exact_mod_cast roundDiv_mul_le _ _
  have hstep := spacing_div_le hden h
  have hpos : (0 : ℚ) < den := by exact_mod_cast hden
  rw [cast_roundUnits]
  push_cast at hround
  generalize (spacing (num / den) : ℚ) = step at *
  generalize (roundDiv num (den * spacing (num / den)) : ℚ) = k at *
  have hexact : step * k ≤ num / den + step / 2 := by
    rw [div_add' _ _ _ hpos.ne', le_div_iff₀ hpos]
    linarith
  calc step * k ≤ num / den + step / 2 := hexact
    _ ≤ num / den * (1 + roundoff) := by linarith

theorem mul_le_roundUnits (hden : 0 < den) (h : smallestNormal * den ≤ num) :
    num / den * (1 - roundoff) ≤ (roundUnits num den : ℚ) := by
  have hround : ((2 * num : Nat) : ℚ) ≤ (2 * (roundDiv num (den * spacing (num / den)) *
      (den * spacing (num / den))) + den * spacing (num / den) : Nat) := by
    exact_mod_cast le_roundDiv_mul (Nat.mul_pos hden (spacing_pos _))
  have hstep := spacing_div_le hden h
  have hpos : (0 : ℚ) < den := by exact_mod_cast hden
  rw [cast_roundUnits]
  push_cast at hround
  generalize (spacing (num / den) : ℚ) = step at *
  generalize (roundDiv num (den * spacing (num / den)) : ℚ) = k at *
  have hexact : (num : ℚ) / den ≤ step * k + step / 2 := by
    rw [div_le_iff₀ hpos]
    linarith
  linarith

/-- Below the smallest normal magnitude rounding does not leave that range. -/
theorem roundUnits_le_max (hden : 0 < den) :
    (roundUnits num den : ℚ) ≤ max (smallestNormal : ℚ) (num / den * (1 + roundoff)) := by
  rcases Nat.lt_or_ge num (smallestNormal * den) with hlt | hge
  · apply le_max_of_le_left
    exact_mod_cast roundUnits_le_of_le_mul representable_smallestNormal (Nat.le_of_lt hlt)
  · exact le_max_of_le_right (roundUnits_le_mul hden hge)

end Binary64

end PerfGate
