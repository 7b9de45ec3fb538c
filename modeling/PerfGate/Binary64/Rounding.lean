import PerfGate.Binary64.Basic

/-!
# Binary64 — rounding to nearest

One rounding serves every operation: the nearest multiple of the spacing, a tie going to the even
multiple. Its results are representable as long as they stay below the limit
(`representable_roundUnits`), and at the limit they become infinite (`ofUnits`).
-/

namespace PerfGate

/-- The whole number nearest to `num / den`; a half goes to the even neighbour. -/
def roundDiv (num den : Nat) : Nat :=
  let below := num / den
  let rest := num % den
  if 2 * rest < den ∨ 2 * rest = den ∧ below % 2 = 0 then below else below + 1

theorem roundDiv_le (num den : Nat) : roundDiv num den ≤ num / den + 1 := by
  unfold roundDiv
  simp only
  split <;> omega

namespace Binary64

/-- `num / den` units, rounded to the grid of its magnitude. -/
def roundUnits (num den : Nat) : Nat :=
  let step := spacing (num / den)
  step * roundDiv num (den * step)

/-- Rounding stays within the power of two above the magnitude. -/
theorem roundUnits_le (num den : Nat) :
    roundUnits num den ≤ 1 <<< ((num / den).log2 + 1) := by
  generalize hq : num / den = q
  have hlt : q < 1 <<< (q.log2 + 1) := by
    rw [Nat.one_shiftLeft]
    exact Nat.lt_log2_self
  have hsplit : 1 <<< (q.log2 + 1) = spacing q * 1 <<< (q.log2 + 1 - (q.log2 - 52)) := by
    rw [spacing, ← shiftLeft_add]
    congr 1
    omega
  have hdiv : q / spacing q < 1 <<< (q.log2 + 1 - (q.log2 - 52)) := by
    apply Nat.div_lt_of_lt_mul
    rw [← hsplit]
    exact hlt
  have hround := roundDiv_le num (den * spacing q)
  rw [← Nat.div_div_eq_div_mul, hq] at hround
  unfold roundUnits
  simp only [hq]
  rw [hsplit]
  exact Nat.mul_le_mul_left _ (by omega)

/-- A multiple of a magnitude's spacing, no further than the next power of two, lies on its own
grid. -/
theorem spacing_dvd_of_le {q n : Nat} (hdvd : spacing q ∣ n) (hle : n ≤ 1 <<< (q.log2 + 1)) :
    spacing n ∣ n := by
  rcases Nat.lt_or_eq_of_le hle with hlt | rfl
  · by_cases hn : n = 0
    · subst hn
      exact Nat.dvd_zero _
    · have hlog : n.log2 < q.log2 + 1 := by
        rw [Nat.log2_lt hn, ← Nat.one_shiftLeft]
        exact hlt
      exact Nat.dvd_trans (shiftLeft_dvd (by omega)) hdvd
  · rw [spacing, log2_shiftLeft]
    exact shiftLeft_dvd (by omega)

theorem representable_roundUnits {num den : Nat} (h : roundUnits num den < limit) :
    Representable (roundUnits num den) :=
  ⟨h, spacing_dvd_of_le (Nat.dvd_mul_right _ _) (roundUnits_le num den)⟩

/-- The double nearest to `num / den` units, with the given sign. -/
def ofUnits (negative : Bool) (num den : Nat) : Binary64 :=
  if h : roundUnits num den < limit then .finite negative _ (representable_roundUnits h)
  else .infinite negative

/-- The double nearest to the fraction `num / den`, with the given sign. -/
def ofRatio (negative : Bool) (num den : Nat) : Binary64 :=
  ofUnits negative (num * perOne) den

/-- The double nearest to a natural number. -/
def ofNat (n : Nat) : Binary64 := ofRatio false n 1

/-- The double nearest to a whole number. Zero is positive. -/
def ofInt (i : Int) : Binary64 := ofRatio (decide (i < 0)) i.natAbs 1

/-- The double with the given 64 bits. Every pattern of a NaN is the one NaN. -/
def ofBits (bits : UInt64) : Binary64 :=
  let negative := decide (1 <<< 63 ≤ bits.toNat)
  let magnitude := bits.toNat % 1 <<< 63
  let exponent := magnitude >>> 52
  let fraction := magnitude % 1 <<< 52
  if exponent = 2047 then
    if fraction = 0 then .infinite negative else .nan
  else if exponent = 0 then ofUnits negative fraction 1
  else ofUnits negative ((1 <<< 52 + fraction) <<< (exponent - 1)) 1

end Binary64

end PerfGate
