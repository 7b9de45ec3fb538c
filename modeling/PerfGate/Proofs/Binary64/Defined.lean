import PerfGate.Proofs.Binary64.Nearest

/-!
# Binary64 — results that are numbers

An operation is NaN only on an operand that is NaN, on two infinities, or on zeros and infinities. A
sum of finite doubles never meets two infinities: once it is infinite, finite terms leave it as it
is (`sum_ne_nan`). Sums, quotients and roots of amounts that are not negative are not negative
either, and so they are numbers.
-/

namespace PerfGate.Binary64

variable {x y : Binary64} {xs : List Binary64}

/-! ## Amounts -/

theorem zero_le_iff : zero false ≤ x ↔ ∃ a ∈ x.place?, 0 ≤ a := by
  constructor
  · rintro ⟨a, ha, b, hb, hab⟩
    cases ha
    exact ⟨b, hb, hab⟩
  · rintro ⟨b, hb, hnonneg⟩
    exact ⟨0, rfl, b, hb, hnonneg⟩

theorem zero_le_of_place? {i : Int} (hx : x.place? = some (clamp i)) (hi : 0 ≤ i) :
    zero false ≤ x := by
  refine zero_le_iff.2 ⟨_, hx, ?_⟩
  unfold clamp
  omega

theorem ne_nan_of_zero_le (h : zero false ≤ x) : x ≠ nan := by
  rintro rfl
  obtain ⟨_, ha, -⟩ := zero_le_iff.1 h
  cases ha

theorem ne_nan_of_place? {a : Int} (hx : x.place? = some a) : x ≠ nan := by
  rintro rfl
  cases hx

theorem ne_nan_of_isFinite (h : x.isFinite) : x ≠ nan :=
  ne_nan_of_place? (place?_of_isFinite h)

/-- An amount that is not negative is infinite, or its units are not negative. -/
theorem zero_le_cases (h : zero false ≤ x) : x = infinite false ∨ x.isFinite ∧ 0 ≤ x.units := by
  obtain ⟨a, ha, hnonneg⟩ := zero_le_iff.1 h
  cases x with
  | nan => cases ha
  | finite s n hn =>
      cases ha
      exact .inr ⟨rfl, hnonneg⟩
  | infinite s =>
      cases s with
      | false => exact .inl rfl
      | true =>
          have hlimit := limit_pos
          have hplace : -(limit : Int) = a := Option.some.inj ha
          omega

theorem units_nonneg_of_zero_lt (h : zero false < x) : 0 ≤ x.units := by
  cases x with
  | nan => exact Int.le_refl 0
  | infinite s => exact Int.le_refl 0
  | finite s n hn =>
      obtain ⟨rfl, -⟩ := zero_lt_finite_iff.1 h
      exact Int.natCast_nonneg n

theorem nearest_nonneg {num : Int} (h : 0 ≤ num) (den : Nat) : 0 ≤ nearest num den := by
  rw [nearest_of_nonneg h]
  exact Int.natCast_nonneg _

/-! ## Sums -/

/-- A finite term leaves an infinite sum as it is. -/
theorem add_ne_nan (hx : x ≠ nan) (hy : y.isFinite) : x + y ≠ nan := by
  cases x with
  | nan => exact absurd rfl hx
  | finite s m hm => exact ne_nan_of_place? (place?_add rfl hy)
  | infinite s =>
      cases y with
      | nan => cases hy
      | infinite t => cases hy
      | finite t n hn =>
          show infinite s ≠ nan
          simp

theorem sum_concat (xs : List Binary64) (x : Binary64) : sum (xs ++ [x]) = sum xs + x := by
  rw [sum, List.foldl_concat]
  rfl

/-- **A sum of finite doubles is a number.** -/
theorem sum_ne_nan (hxs : ∀ x ∈ xs, x.isFinite) : sum xs ≠ nan := by
  induction xs using List.reverseRecOn with
  | nil =>
      show zero true ≠ nan
      simp [zero]
  | append_singleton xs x ih =>
      rw [List.forall_mem_append, List.forall_mem_singleton] at hxs
      rw [sum_concat]
      exact add_ne_nan (ih hxs.1) hxs.2

theorem zero_le_infinite : zero false ≤ infinite false :=
  zero_le_iff.2 ⟨limit, rfl, Int.natCast_nonneg limit⟩

theorem infinite_add (h : zero false ≤ x) : infinite false + x = infinite false := by
  rcases zero_le_cases h with rfl | ⟨hfinite, -⟩
  · rfl
  · cases x with
    | nan => cases hfinite
    | infinite s => cases hfinite
    | finite s n hn => rfl

theorem add_infinite (h : zero false ≤ x) : x + infinite false = infinite false := by
  rw [add_comm, infinite_add h]

theorem zero_le_add (hx : zero false ≤ x) (hy : zero false ≤ y) : zero false ≤ x + y := by
  rcases zero_le_cases hx with rfl | ⟨hxfinite, hxunits⟩
  · rw [infinite_add hy]
    exact hx
  · rcases zero_le_cases hy with rfl | ⟨hyfinite, hyunits⟩
    · rw [add_infinite hx]
      exact hy
    · exact zero_le_of_place? (place?_add hxfinite hyfinite)
        (nearest_nonneg (Int.add_nonneg hxunits hyunits) 1)

theorem zero_le_sum (hxs : ∀ x ∈ xs, zero false ≤ x) : zero false ≤ sum xs := by
  induction xs using List.reverseRecOn with
  | nil => exact zero_le_iff.2 ⟨0, rfl, Int.le_refl 0⟩
  | append_singleton xs x ih =>
      rw [List.forall_mem_append, List.forall_mem_singleton] at hxs
      rw [sum_concat]
      exact zero_le_add (ih hxs.1) hxs.2

/-- A sum with an infinite last term is infinite. -/
theorem sum_eq_infinite (hne : xs ≠ []) (hxs : ∀ x ∈ xs, x = infinite false) :
    sum xs = infinite false := by
  obtain ⟨init, x, rfl⟩ := (List.eq_nil_or_concat' xs).resolve_left hne
  rw [List.forall_mem_append] at hxs
  have hinit : zero false ≤ sum init := by
    apply zero_le_sum
    intro y hy
    rw [hxs.1 y hy]
    exact zero_le_infinite
  rw [sum_concat, hxs.2 _ (List.mem_singleton_self _), add_infinite hinit]

/-! ### Finite sums -/

/-- A magnitude of `2 ^ 971` at most. Fewer than `2 ^ 53` doubles like this can be added. -/
def IsAddable (x : Binary64) : Prop := x.isFinite ∧ x.units.natAbs ≤ 1 <<< 2045

/-- **Few addable doubles have a finite sum**: after each term it is at most the number of terms
times `2 ^ 971`, which is a double. -/
theorem sum_of_addable (hxs : ∀ x ∈ xs, x.IsAddable) (hlen : xs.length < 1 <<< 53) :
    (sum xs).isFinite ∧ (sum xs).units.natAbs ≤ xs.length * 1 <<< 2045 := by
  induction xs using List.reverseRecOn with
  | nil => exact ⟨rfl, Nat.zero_le _⟩
  | append_singleton xs x ih =>
      rw [List.forall_mem_append, List.forall_mem_singleton] at hxs
      rw [List.length_append, List.length_singleton] at hlen ⊢
      obtain ⟨hfinite, hunits⟩ := ih hxs.1 (by omega)
      obtain ⟨hx, hxunits⟩ := hxs.2
      have hbound : Representable ((xs.length + 1) * 1 <<< 2045) :=
        representable_mul_shiftLeft hlen (Nat.le_refl _)
      have hnear : (nearest ((sum xs).units + x.units) 1).natAbs ≤
          (xs.length + 1) * 1 <<< 2045 := by
        apply natAbs_nearest_le hbound
        calc ((sum xs).units + x.units).natAbs
            ≤ (sum xs).units.natAbs + x.units.natAbs := Int.natAbs_add_le _ _
          _ ≤ xs.length * 1 <<< 2045 + 1 <<< 2045 := Nat.add_le_add hunits hxunits
          _ = (xs.length + 1) * 1 <<< 2045 * 1 := by rw [Nat.mul_one, Nat.succ_mul]
      rw [sum_concat]
      obtain ⟨hsum, heq⟩ :=
        units_of_place?_clamp (place?_add hfinite hx) (hnear.trans_lt hbound.1)
      rw [heq]
      exact ⟨hsum, hnear⟩

/-! ## Differences and squares -/

theorem sub_ne_nan (hx : x.isFinite) (hy : y ≠ nan) : x - y ≠ nan := by
  cases y with
  | nan => exact absurd rfl hy
  | finite t n hn => exact ne_nan_of_place? (place?_sub hx rfl)
  | infinite t =>
      cases x with
      | nan => cases hx
      | infinite s => cases hx
      | finite s m hm =>
          show infinite (!t) ≠ nan
          simp

theorem sub_infinite (hx : x.isFinite) : x - infinite false = infinite true := by
  cases x with
  | nan => cases hx
  | infinite s => cases hx
  | finite s m hm => rfl

/-- A square is not negative. -/
theorem zero_le_mul_self (hx : x ≠ nan) : zero false ≤ x * x := by
  cases x with
  | nan => exact absurd rfl hx
  | infinite s =>
      have hsquare : infinite s * infinite s = infinite false := by cases s <;> rfl
      rw [hsquare]
      exact zero_le_infinite
  | finite s m hm =>
      exact zero_le_of_place? (place?_mul rfl rfl) (nearest_nonneg (mul_self_nonneg _) perOne)

theorem mul_ne_nan {n : Nat} {hn : Representable n} (hpos : 0 < n) (hx : x ≠ nan) :
    finite false n hn * x ≠ nan := by
  cases x with
  | nan => exact absurd rfl hx
  | finite t m hm => exact ne_nan_of_place? (place?_mul rfl rfl)
  | infinite t =>
      show (if n = 0 then nan else infinite (false != t)) ≠ nan
      rw [if_neg hpos.ne']
      simp

/-! ## Quotients and roots -/

section Quotients

variable {n : Nat} {hn : Representable n}

theorem div_ne_nan (hpos : 0 < n) (hx : x ≠ nan) : x / finite false n hn ≠ nan := by
  cases x with
  | nan => exact absurd rfl hx
  | finite s m hm => exact ne_nan_of_place? (place?_div rfl hpos)
  | infinite s =>
      show infinite (s != false) ≠ nan
      simp

theorem zero_le_div (hpos : 0 < n) (hx : zero false ≤ x) : zero false ≤ x / finite false n hn := by
  rcases zero_le_cases hx with rfl | ⟨hfinite, hunits⟩
  · exact zero_le_infinite
  · exact zero_le_of_place? (place?_div hfinite hpos)
      (nearest_nonneg (Int.mul_nonneg hunits (Int.natCast_nonneg perOne)) n)

end Quotients

/-- A count that fits into 64 bits is a positive double. -/
theorem exists_ofNat_eq {n : Nat} (hpos : 0 < n) (hn : n < UInt64.size) :
    ∃ k hk, ofNat n = finite false k hk ∧ 0 < k := by
  have hfinite : (ofNat n).isFinite := by
    apply isFinite_ofRatio_one (k := 64) _ (by decide)
    rw [Nat.one_shiftLeft]
    exact Nat.le_of_lt hn
  obtain ⟨place, hplace, hle⟩ := atLeastOne_ofNat hpos
  have hone := perOne_pos
  have hunits : roundUnits (n * perOne) 1 < limit := by
    by_contra hge
    rw [ofNat, ofRatio, ofUnits_of_le (Nat.not_lt.1 hge)] at hfinite
    cases hfinite
  have heq : ofNat n = finite false _ (representable_roundUnits hunits) := ofUnits_of_lt hunits
  rw [heq] at hplace
  have hplace : (roundUnits (n * perOne) 1 : Int) = place := Option.some.inj hplace
  exact ⟨_, _, heq, by omega⟩

theorem zero_le_ofUnits (n : Nat) {den : Nat} (hden : 0 < den) :
    zero false ≤ ofUnits false n den :=
  zero_le_of_place? (place?_ofUnits false n hden) (nearest_nonneg (Int.natCast_nonneg n) den)

theorem zero_le_sqrt (hx : zero false ≤ x) : zero false ≤ x.sqrt := by
  rcases zero_le_cases hx with rfl | ⟨hfinite, hunits⟩
  · exact hx
  · cases x with
    | nan => cases hfinite
    | infinite s => cases hfinite
    | finite s n hn =>
        simp only [sqrt]
        by_cases hzero : n = 0
        · rw [if_pos hzero]
          exact hx
        · -- a number of units that is not negative has no sign unless it is zero
          have hsign : ¬ s = true := by
            rintro rfl
            have hunits : 0 ≤ -(n : Int) := hunits
            omega
          rw [if_neg hzero, if_neg hsign]
          exact zero_le_ofUnits _ Nat.two_pos

/-! ## Ratios -/

/-- The ratio of two amounts, of which the second is positive, is a number unless both are
infinite. -/
theorem div_eq_nan_iff (hx : zero false ≤ x) (hy : zero false < y) :
    x / y = nan ↔ x = infinite false ∧ y = infinite false := by
  constructor
  · intro h
    cases y with
    | nan =>
        obtain ⟨_, _, _, hb, _⟩ := hy
        cases hb
    | finite t n hn =>
        obtain ⟨rfl, hpos⟩ := zero_lt_finite_iff.1 hy
        exact absurd h (ne_nan_of_zero_le (zero_le_div hpos hx))
    | infinite t =>
        rcases zero_le_cases hx with rfl | ⟨hfinite, -⟩
        · refine ⟨rfl, ?_⟩
          obtain ⟨_, ha, _, hb, hab⟩ := hy
          cases ha
          cases hb
          cases t with
          | false => rfl
          | true =>
              have hlimit := limit_pos
              have hab : 0 < -(limit : Int) := hab
              omega
        · cases x with
          | nan => cases hfinite
          | infinite s => cases hfinite
          | finite s m hm => cases h
  · rintro ⟨rfl, rfl⟩
    rfl

theorem zero_lt_infinite : zero false < infinite false :=
  ⟨0, rfl, limit, rfl, Int.natCast_pos.2 limit_pos⟩

/-- Nothing is below NaN. -/
theorem not_lt_nan (x : Binary64) : ¬ x < nan := by
  rintro ⟨_, _, _, hplace, _⟩
  cases hplace

theorem exists_place?_of_ne_nan (hx : x ≠ nan) : ∃ a, x.place? = some a := by
  cases x with
  | nan => exact absurd rfl hx
  | infinite s => exact ⟨_, rfl⟩
  | finite s n hn => exact ⟨_, rfl⟩

/-- Two numbers can be compared. -/
theorem le_or_lt (hx : x ≠ nan) (hy : y ≠ nan) : x ≤ y ∨ y < x := by
  obtain ⟨a, ha⟩ := exists_place?_of_ne_nan hx
  obtain ⟨b, hb⟩ := exists_place?_of_ne_nan hy
  rcases Int.lt_or_le b a with hlt | hle
  · exact .inr ⟨b, hb, a, ha, hlt⟩
  · exact .inl ⟨a, ha, b, hb, hle⟩

end PerfGate.Binary64
