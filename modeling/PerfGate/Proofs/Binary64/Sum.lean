import Mathlib.Algebra.BigOperators.Ring.List
import Mathlib.Algebra.GroupWithZero.Nat
import Mathlib.Algebra.Ring.Int.Defs
import Mathlib.Data.List.Induction
import Mathlib.Data.List.Permutation
import PerfGate.Proofs.Binary64.Bounds

/-!
# Binary64 — sums in another order

Addition is commutative, but each addition rounds, so a sum of three doubles can already depend on the
order of its terms. It does not where nothing is rounded (`IsExactSum`), and that is so whenever the
terms lie on one grid and are few enough to have all their sums on it (`OnGrid`): whole numbers whose
magnitudes add up to less than `2 ^ 53`, for example.
-/

namespace PerfGate.Binary64

/-! ## Units -/

/-- The signed units of a finite double. -/
def units : Binary64 → Int
  | .finite s n _ => signed s n
  | _ => 0

/-- The exact sum, in units. -/
def total (xs : List Binary64) : Int := (xs.map units).sum

/-- The sum of the magnitudes, in units. It is a bound on every part of the sum. -/
def magnitude (xs : List Binary64) : Nat := (xs.map fun x => x.units.natAbs).sum

theorem total_append (xs ys : List Binary64) : total (xs ++ ys) = total xs + total ys := by
  rw [total, List.map_append, List.sum_append, total, total]

theorem total_singleton (x : Binary64) : total [x] = x.units := by
  simp [total]

theorem total_eq_of_perm {xs ys : List Binary64} (h : xs.Perm ys) : total xs = total ys :=
  (h.map units).sum_eq

theorem magnitude_append (xs ys : List Binary64) :
    magnitude (xs ++ ys) = magnitude xs + magnitude ys := by
  rw [magnitude, List.map_append, List.sum_append, magnitude, magnitude]

theorem natAbs_total_le (xs : List Binary64) : (total xs).natAbs ≤ magnitude xs := by
  induction xs with
  | nil => exact Nat.le_refl 0
  | cons x xs ih =>
      have hadd := Int.natAbs_add_le x.units (total xs)
      simp only [total, magnitude, List.map_cons, List.sum_cons] at ih hadd ⊢
      omega

theorem natAbs_signed (s : Bool) (n : Nat) : (signed s n).natAbs = n := by
  cases s <;> simp [signed]

theorem decide_signed_neg {s : Bool} {n : Nat} (hn : n ≠ 0) : decide (signed s n < 0) = s := by
  cases s
  · simp [signed]
  · simp only [signed, if_true, decide_eq_true_eq]
    omega

theorem signed_natAbs (i : Int) : signed (decide (i < 0)) i.natAbs = i := by
  unfold signed
  by_cases hi : i < 0
  · rw [decide_eq_true hi, if_pos rfl]
    omega
  · rw [decide_eq_false hi, if_neg Bool.false_ne_true]
    omega

/-- Only the two zeros have the same units. -/
theorem eq_of_units {x y : Binary64} (hx : x.isFinite) (hy : y.isFinite) (h : x.units = y.units)
    (hzero : x = zero true ↔ y = zero true) : x = y := by
  cases x with
  | nan => cases hx
  | infinite s => cases hx
  | finite s m hm =>
      cases y with
      | nan => cases hy
      | infinite t => cases hy
      | finite t n hn =>
          have hmn : m = n := by
            rw [← natAbs_signed s m, ← natAbs_signed t n]
            exact congrArg Int.natAbs h
          subst hmn
          suffices s = t by rw [this]
          by_cases hm0 : m = 0
          · subst hm0
            simp only [zero, finite.injEq, and_true] at hzero
            exact Bool.eq_iff_iff.2 hzero
          · rw [← decide_signed_neg (s := s) hm0, ← decide_signed_neg (s := t) hm0]
            exact congrArg (fun i : Int => decide (i < 0)) h

/-! ## One addition -/

theorem add_comm (x y : Binary64) : x + y = y + x := by
  show add x y = add y x
  cases x with
  | nan => cases y <;> rfl
  | infinite s =>
      cases y with
      | nan => rfl
      | infinite t =>
          by_cases hst : s = t
          · rw [hst]
          · simp only [add, if_neg hst, if_neg (Ne.symm hst)]
      | finite t n hn => rfl
  | finite s m hm =>
      cases y with
      | nan => rfl
      | infinite t => rfl
      | finite t n hn => simp only [add, Int.add_comm (signed s m), Bool.and_comm s]

/-- A magnitude that is representable is left as it is. -/
theorem ofUnits_one {negative : Bool} {n : Nat} (h : Representable n) :
    ofUnits negative n 1 = .finite negative n h := by
  have hunits : roundUnits n 1 = n := roundUnits_eq h Nat.one_pos (Nat.mul_one n).symm
  have hlt : roundUnits n 1 < limit := by
    rw [hunits]
    exact h.1
  rw [ofUnits_of_lt hlt]
  congr 1

/-- The empty sum changes no other. -/
theorem zero_true_add (x : Binary64) : zero true + x = x := by
  show add (zero true) x = x
  cases x with
  | nan => rfl
  | infinite s => rfl
  | finite s n h =>
      have hsum : signed true 0 + signed s n = signed s n := Int.zero_add _
      simp only [add, zero, hsum, Bool.true_and]
      by_cases hn : n = 0
      · subst hn
        cases s <;> rfl
      · have hne : signed s n ≠ 0 := by
          rw [← Int.natAbs_ne_zero, natAbs_signed]
          exact hn
        rw [if_neg hne, decide_signed_neg hn]
        simp only [natAbs_signed]
        exact ofUnits_one h

theorem finite_add_finite {s t : Bool} {m n : Nat} {hm : Representable m} {hn : Representable n} :
    finite s m hm + finite t n hn =
      if signed s m + signed t n = 0 then zero (s && t)
      else ofUnits (decide (signed s m + signed t n < 0)) (signed s m + signed t n).natAbs 1 :=
  rfl

theorem units_zero (s : Bool) : (zero s).units = 0 := by
  cases s <;> rfl

/-- An addition with a representable result is exact. -/
theorem add_exact {x y : Binary64} (hx : x.isFinite) (hy : y.isFinite)
    (hsum : Representable (x.units + y.units).natAbs) :
    (x + y).isFinite ∧ (x + y).units = x.units + y.units ∧
      (x + y = zero true ↔ x = zero true ∧ y = zero true) := by
  cases x with
  | nan => cases hx
  | infinite s => cases hx
  | finite s m hm =>
      cases y with
      | nan => cases hy
      | infinite t => cases hy
      | finite t n hn =>
          rw [finite_add_finite]
          by_cases hzero : signed s m + signed t n = 0
          · rw [if_pos hzero]
            refine ⟨rfl, ?_, ?_⟩
            · exact (units_zero _).trans hzero.symm
            · -- opposite numbers that are no zeros have opposite signs
              simp only [zero, finite.injEq, and_true, Bool.and_eq_true]
              constructor
              · rintro ⟨rfl, rfl⟩
                have hunits : -(m : Int) + -(n : Int) = 0 := hzero
                exact ⟨⟨rfl, by omega⟩, rfl, by omega⟩
              · rintro ⟨⟨hs, -⟩, ht, -⟩
                exact ⟨hs, ht⟩
          · have hrounded : Representable (signed s m + signed t n).natAbs := hsum
            rw [if_neg hzero, ofUnits_one hrounded]
            refine ⟨rfl, signed_natAbs _, ?_⟩
            simp only [zero, finite.injEq]
            constructor
            · rintro ⟨-, hnat⟩
              exact absurd (Int.natAbs_eq_zero.1 hnat) hzero
            · rintro ⟨⟨rfl, rfl⟩, rfl, rfl⟩
              exact absurd rfl hzero

/-! ## Exact sums -/

/-- A double that is the exact sum of a list. A sum of zeros is `-0.0` only if all of them are. -/
structure IsExactSum (xs : List Binary64) (x : Binary64) : Prop where
  isFinite : x.isFinite
  units : x.units = total xs
  sign : x = zero true ↔ ∀ y ∈ xs, y = zero true

namespace IsExactSum

variable {xs ys : List Binary64} {x y : Binary64}

theorem nil : IsExactSum [] (zero true) where
  isFinite := rfl
  units := rfl
  sign := by simp

theorem concat (h : IsExactSum xs x) (hy : y.isFinite)
    (hsum : Representable (total (xs ++ [y])).natAbs) : IsExactSum (xs ++ [y]) (x + y) := by
  have htotal : x.units + y.units = total (xs ++ [y]) := by
    rw [total_append, total_singleton, h.units]
  rw [← htotal] at hsum
  obtain ⟨hfinite, hunits, hsign⟩ := add_exact h.isFinite hy hsum
  refine ⟨hfinite, hunits.trans htotal, ?_⟩
  rw [hsign, h.sign, List.forall_mem_append, List.forall_mem_singleton]

/-- There is one exact sum, whatever the order of the terms. -/
theorem eq_of_perm (hx : IsExactSum xs x) (hy : IsExactSum ys y) (h : xs.Perm ys) : x = y := by
  apply eq_of_units hx.isFinite hy.isFinite
  · rw [hx.units, hy.units, total_eq_of_perm h]
  · rw [hx.sign, hy.sign]
    simp only [h.mem_iff]

end IsExactSum

/-! ## Terms on one grid -/

/-- Finite doubles that are multiples of one power of two, with magnitudes that add up to less than
`2 ^ 53` times that power. -/
structure OnGrid (k : Nat) (xs : List Binary64) : Prop where
  level : k ≤ 2045
  isFinite : ∀ x ∈ xs, x.isFinite
  dvd : ∀ x ∈ xs, 1 <<< k ∣ x.units.natAbs
  magnitude : magnitude xs < 1 <<< (53 + k)

instance (k : Nat) (xs : List Binary64) : Decidable (OnGrid k xs) :=
  decidable_of_iff (k ≤ 2045 ∧ (∀ x ∈ xs, x.isFinite) ∧ (∀ x ∈ xs, 1 <<< k ∣ x.units.natAbs) ∧
      magnitude xs < 1 <<< (53 + k))
    ⟨fun ⟨hlevel, hfinite, hdvd, hmagnitude⟩ => ⟨hlevel, hfinite, hdvd, hmagnitude⟩,
      fun h => ⟨h.level, h.isFinite, h.dvd, h.magnitude⟩⟩

namespace OnGrid

variable {k : Nat} {xs ys : List Binary64}

theorem perm (h : OnGrid k xs) (hperm : xs.Perm ys) : OnGrid k ys where
  level := h.level
  isFinite y hy := h.isFinite y (hperm.mem_iff.2 hy)
  dvd y hy := h.dvd y (hperm.mem_iff.2 hy)
  magnitude := by
    rw [Binary64.magnitude, ← (hperm.map _).sum_eq]
    exact h.magnitude

theorem of_append (h : OnGrid k (xs ++ ys)) : OnGrid k xs where
  level := h.level
  isFinite x hx := h.isFinite x (List.mem_append_left _ hx)
  dvd x hx := h.dvd x (List.mem_append_left _ hx)
  magnitude := by
    have := h.magnitude
    rw [magnitude_append] at this
    omega

theorem representable_total (h : OnGrid k xs) : Representable (total xs).natAbs := by
  have hdvd : ((1 <<< k : Nat) : Int) ∣ total xs := by
    apply List.dvd_sum
    intro i hi
    obtain ⟨x, hx, rfl⟩ := List.mem_map.1 hi
    exact Int.ofNat_dvd_left.2 (h.dvd x hx)
  obtain ⟨n, hn⟩ := Int.ofNat_dvd_left.1 hdvd
  have hlt : n * 1 <<< k < 1 <<< 53 * 1 <<< k := by
    rw [← shiftLeft_add, Nat.mul_comm, ← hn]
    exact Nat.lt_of_le_of_lt (natAbs_total_le xs) h.magnitude
  rw [hn, Nat.mul_comm]
  exact representable_mul_shiftLeft (Nat.lt_of_mul_lt_mul_right hlt) h.level

/-- Nothing is rounded in a sum over a grid. -/
theorem isExactSum (h : OnGrid k xs) : IsExactSum xs (sum xs) := by
  induction xs using List.reverseRecOn with
  | nil => exact .nil
  | append_singleton xs x ih =>
      have hsum : sum (xs ++ [x]) = sum xs + x := by
        rw [sum, List.foldl_concat]
        rfl
      rw [hsum]
      exact (ih h.of_append).concat (h.isFinite x (by simp)) h.representable_total

end OnGrid

/-! ## Steady sums -/

/-- Doubles whose sum does not depend on their order: no more than two, or all on one grid. -/
def Steady (xs : List Binary64) : Prop := xs.length ≤ 2 ∨ ∃ k, OnGrid k xs

theorem sum_eq_of_perm_of_length {xs ys : List Binary64} (hlength : xs.length ≤ 2)
    (h : xs.Perm ys) : sum xs = sum ys := by
  match xs with
  | [] => rw [h.nil_eq]
  | [x] => rw [List.singleton_perm.1 h]
  | [x, y] =>
      rcases List.pair_perm.1 h with rfl | rfl
      · rfl
      · show zero true + x + y = zero true + y + x
        rw [zero_true_add, zero_true_add, add_comm]
  | x :: y :: z :: rest => exact absurd hlength (by simp only [List.length_cons]; omega)

theorem Steady.sum_eq_of_perm {xs ys : List Binary64} (hx : Steady xs) (h : xs.Perm ys) :
    sum xs = sum ys := by
  rcases hx with hlength | ⟨k, hgrid⟩
  · exact sum_eq_of_perm_of_length hlength h
  · exact hgrid.isExactSum.eq_of_perm (hgrid.perm h).isExactSum h

end PerfGate.Binary64
