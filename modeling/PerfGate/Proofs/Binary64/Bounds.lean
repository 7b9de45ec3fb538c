import PerfGate.Binary64.Arithmetic

/-!
# Binary64 — rounding stays on its side of a double

Rounding never jumps over a representable magnitude: what is at most such a magnitude stays at most
that, and what is at least one stays at least that. So a quotient by a double that is no less than
one is finite.
-/

namespace PerfGate

/-! ## Whole quotients -/

theorem roundDiv_le_of_le_mul {num den k : Nat} (h : num ≤ k * den) : roundDiv num den ≤ k := by
  rcases Nat.eq_zero_or_pos den with rfl | hden
  · have hnum : num = 0 := by omega
    simp [hnum, roundDiv]
  · have hdiv : num / den ≤ k := Nat.div_le_of_le_mul (by rwa [Nat.mul_comm] at h)
    rcases Nat.lt_or_eq_of_le hdiv with hlt | heq
    · have := roundDiv_le num den
      omega
    · -- at the bound itself nothing is left to round
      have hrest : num % den = 0 := by
        have hsplit := Nat.div_add_mod num den
        rw [heq, Nat.mul_comm] at hsplit
        omega
      unfold roundDiv
      simp [hrest, hden, heq]

theorem le_roundDiv_of_mul_le {num den k : Nat} (hden : 0 < den) (h : k * den ≤ num) :
    k ≤ roundDiv num den := by
  have hdiv : k ≤ num / den := (Nat.le_div_iff_mul_le hden).2 h
  unfold roundDiv
  simp only
  split <;> omega

namespace Binary64

/-! ## The grid -/

theorem log2_mono {m n : Nat} (h : m ≤ n) : m.log2 ≤ n.log2 := by
  rcases Nat.eq_zero_or_pos m with rfl | hm
  · simp
  · rw [Nat.le_log2 (by omega)]
    exact Nat.le_trans (Nat.log2_self_le (by omega)) h

theorem spacing_dvd_spacing {m n : Nat} (h : m ≤ n) : spacing m ∣ spacing n :=
  shiftLeft_dvd (Nat.sub_le_sub_right (log2_mono h) 52)

/-- The powers of two below the limit are doubles. -/
theorem representable_shiftLeft {k : Nat} (h : k < 2098) : Representable (1 <<< k) := by
  refine ⟨shiftLeft_lt h, ?_⟩
  rw [spacing, log2_shiftLeft]
  exact shiftLeft_dvd (Nat.sub_le k 52)

/-- A power of two times a number of 53 bits is a double. -/
theorem representable_mul_shiftLeft {n k : Nat} (hn : n < 1 <<< 53) (hk : k ≤ 2045) :
    Representable (n * 1 <<< k) := by
  have hlt : n * 1 <<< k < 1 <<< (53 + k) := by
    rw [shiftLeft_add]
    exact Nat.mul_lt_mul_of_pos_right hn (shiftLeft_pos k)
  constructor
  · rcases Nat.lt_or_eq_of_le hk with hlast | rfl
    · exact Nat.lt_trans hlt (shiftLeft_lt (by omega))
    · exact hlt
  · by_cases hzero : n * 1 <<< k = 0
    · rw [hzero]
      exact Nat.dvd_zero _
    · have hlog : (n * 1 <<< k).log2 < 53 + k := by
        rw [Nat.log2_lt hzero, ← Nat.one_shiftLeft]
        exact hlt
      exact Nat.dvd_trans (shiftLeft_dvd (by omega)) (Nat.dvd_mul_left _ _)

/-! ## Rounding and the grid -/

theorem roundUnits_le_of_le_mul {num den m : Nat} (hm : Representable m) (h : num ≤ m * den) :
    roundUnits num den ≤ m := by
  have hq : num / den ≤ m := by
    rcases Nat.eq_zero_or_pos den with rfl | hden
    · simp
    · exact Nat.div_le_of_le_mul (by rwa [Nat.mul_comm] at h)
  obtain ⟨k, hk⟩ := Nat.dvd_trans (spacing_dvd_spacing hq) hm.2
  have hround : roundDiv num (den * spacing (num / den)) ≤ k := by
    apply roundDiv_le_of_le_mul
    calc num ≤ m * den := h
      _ = spacing (num / den) * k * den := by rw [← hk]
      _ = k * (den * spacing (num / den)) := by ac_rfl
  calc roundUnits num den
      = spacing (num / den) * roundDiv num (den * spacing (num / den)) := rfl
    _ ≤ spacing (num / den) * k := Nat.mul_le_mul_left _ hround
    _ = m := hk.symm

/-- A power of two that is at most a quotient is at most its rounding. -/
theorem shiftLeft_le_roundUnits {num den k : Nat} (hden : 0 < den) (h : 1 <<< k * den ≤ num) :
    1 <<< k ≤ roundUnits num den := by
  have hq : 1 <<< k ≤ num / den := (Nat.le_div_iff_mul_le hden).2 h
  have hlog : k ≤ (num / den).log2 := by
    rw [← log2_shiftLeft k]
    exact log2_mono hq
  -- the power of two at the magnitude of the quotient is on the grid there
  have hsplit : spacing (num / den) * 1 <<< ((num / den).log2 - ((num / den).log2 - 52)) =
      1 <<< (num / den).log2 := by
    rw [spacing, ← shiftLeft_add]
    congr 1
    omega
  have hself : 1 <<< (num / den).log2 * den ≤ num := by
    rw [← Nat.le_div_iff_mul_le hden, Nat.one_shiftLeft]
    exact Nat.log2_self_le (by have := shiftLeft_pos k; omega)
  have hround : 1 <<< ((num / den).log2 - ((num / den).log2 - 52)) ≤
      roundDiv num (den * spacing (num / den)) := by
    apply le_roundDiv_of_mul_le (Nat.mul_pos hden (spacing_pos _))
    calc 1 <<< ((num / den).log2 - ((num / den).log2 - 52)) * (den * spacing (num / den))
        = spacing (num / den) * 1 <<< ((num / den).log2 - ((num / den).log2 - 52)) * den := by
          ac_rfl
      _ = 1 <<< (num / den).log2 * den := by rw [hsplit]
      _ ≤ num := hself
  calc 1 <<< k ≤ 1 <<< (num / den).log2 := Nat.le_of_dvd (shiftLeft_pos _) (shiftLeft_dvd hlog)
    _ = spacing (num / den) * 1 <<< ((num / den).log2 - ((num / den).log2 - 52)) := hsplit.symm
    _ ≤ spacing (num / den) * roundDiv num (den * spacing (num / den)) :=
        Nat.mul_le_mul_left _ hround
    _ = roundUnits num den := rfl

/-- A representable magnitude that is at most a quotient is at most its rounding. -/
theorem le_roundUnits_of_mul_le {num den m : Nat} (hm : Representable m) (hden : 0 < den)
    (h : m * den ≤ num) : m ≤ roundUnits num den := by
  have hq : m ≤ num / den := (Nat.le_div_iff_mul_le hden).2 h
  rcases Nat.lt_or_eq_of_le (log2_mono hq) with hlog | hlog
  · -- a power of two stands between
    have hne : num / den ≠ 0 := by
      intro hzero
      rw [hzero, Nat.log2_zero] at hlog
      exact Nat.not_lt_zero _ hlog
    have hpower : 1 <<< (num / den).log2 * den ≤ num := by
      rw [← Nat.le_div_iff_mul_le hden, Nat.one_shiftLeft]
      exact Nat.log2_self_le hne
    have hbelow : m < 1 <<< (num / den).log2 := by
      rw [Nat.one_shiftLeft]
      by_cases hzero : m = 0
      · rw [hzero]
        exact Nat.two_pow_pos _
      · exact (Nat.log2_lt hzero).1 hlog
    exact Nat.le_trans (Nat.le_of_lt hbelow) (shiftLeft_le_roundUnits hden hpower)
  · -- the grid is that of the magnitude itself
    have hspacing : spacing (num / den) = spacing m := by rw [spacing, spacing, hlog]
    obtain ⟨j, hj⟩ := hm.2
    have hround : j ≤ roundDiv num (den * spacing (num / den)) := by
      apply le_roundDiv_of_mul_le (Nat.mul_pos hden (spacing_pos _))
      calc j * (den * spacing (num / den)) = spacing m * j * den := by rw [hspacing]; ac_rfl
        _ = m * den := by rw [← hj]
        _ ≤ num := h
    calc m = spacing (num / den) * j := by rw [hspacing]; exact hj
      _ ≤ spacing (num / den) * roundDiv num (den * spacing (num / den)) :=
          Nat.mul_le_mul_left _ hround
      _ = roundUnits num den := rfl

/-- What is representable is not rounded. -/
theorem roundUnits_eq {num den m : Nat} (hm : Representable m) (hden : 0 < den)
    (h : num = m * den) : roundUnits num den = m :=
  Nat.le_antisymm (roundUnits_le_of_le_mul hm (Nat.le_of_eq h))
    (le_roundUnits_of_mul_le hm hden (Nat.le_of_eq h.symm))

/-! ## Finite results -/

theorem ofUnits_of_lt {negative : Bool} {num den : Nat} (h : roundUnits num den < limit) :
    ofUnits negative num den = .finite negative _ (representable_roundUnits h) :=
  dif_pos h

theorem ofUnits_of_le {negative : Bool} {num den : Nat} (h : limit ≤ roundUnits num den) :
    ofUnits negative num den = .infinite negative :=
  dif_neg (Nat.not_lt.2 h)

theorem roundUnits_lt_limit {negative : Bool} {num den : Nat}
    (hfinite : (ofUnits negative num den).isFinite) : roundUnits num den < limit := by
  rcases Nat.lt_or_ge (roundUnits num den) limit with hlt | hge
  · exact hlt
  · rw [ofUnits_of_le hge] at hfinite
    cases hfinite

theorem isFinite_ofUnits {negative : Bool} {num den m : Nat} (hm : Representable m)
    (h : num ≤ m * den) : (ofUnits negative num den).isFinite := by
  rw [ofUnits_of_lt (Nat.lt_of_le_of_lt (roundUnits_le_of_le_mul hm h) hm.1)]
  rfl

theorem ofNat_eq {k : Nat} (hk : Representable (k * perOne)) :
    ofNat k = .finite false (k * perOne) hk := by
  have hunits : roundUnits (k * perOne) 1 = k * perOne :=
    roundUnits_eq hk Nat.one_pos (Nat.mul_one _).symm
  have hlt : roundUnits (k * perOne) 1 < limit := by
    rw [hunits]
    exact hk.1
  have hx : ofNat k = .finite false _ (representable_roundUnits hlt) := ofUnits_of_lt hlt
  rw [hx]
  congr 1

theorem ofNat_zero : ofNat 0 = .zero false := by
  have hzero : Representable (0 * perOne) := by
    rw [Nat.zero_mul]
    exact representable_zero
  rw [ofNat_eq hzero]
  simp only [Nat.zero_mul]
  rfl

/-- A natural number below `2 ^ 1024` is a finite double. -/
theorem isFinite_ofRatio_one {negative : Bool} {n k : Nat} (hn : n ≤ 1 <<< k) (hk : k < 1024) :
    (ofRatio negative n 1).isFinite := by
  apply isFinite_ofUnits (representable_shiftLeft (k := k + 1074) (by omega))
  rw [Nat.mul_one, shiftLeft_add]
  exact Nat.mul_le_mul_right perOne hn

/-- The positive doubles that are no less than one, infinity included. -/
def AtLeastOne (x : Binary64) : Prop := ∃ place ∈ x.place?, (perOne : Int) ≤ place

theorem perOne_pos : 0 < perOne := shiftLeft_pos _

theorem perOne_lt_limit : perOne < limit := shiftLeft_lt (by decide)

theorem atLeastOne_ofNat {n : Nat} (h : 1 ≤ n) : AtLeastOne (ofNat n) := by
  have hunits : perOne ≤ roundUnits (n * perOne) 1 := by
    apply shiftLeft_le_roundUnits Nat.one_pos
    rw [Nat.mul_one]
    exact Nat.le_mul_of_pos_left perOne h
  unfold ofNat ofRatio
  rcases Nat.lt_or_ge (roundUnits (n * perOne) 1) limit with hlt | hge
  · rw [ofUnits_of_lt hlt]
    exact ⟨_, rfl, Int.ofNat_le.2 hunits⟩
  · rw [ofUnits_of_le hge]
    exact ⟨_, rfl, Int.ofNat_le.2 (Nat.le_of_lt perOne_lt_limit)⟩

theorem finite_mul_finite {s t : Bool} {m n : Nat} (hm : Representable m) (hn : Representable n) :
    finite s m hm * finite t n hn = ofUnits (s != t) (m * n) perOne := by
  show mul (finite s m hm) (finite t n hn) = _
  rw [mul]

theorem finite_div_finite {s t : Bool} {m n : Nat} (hm : Representable m) (hn : Representable n)
    (hpos : 0 < n) : finite s m hm / finite t n hn = ofUnits (s != t) (m * perOne) n := by
  show div (finite s m hm) (finite t n hn) = _
  rw [div, if_neg (Nat.ne_of_gt hpos), ofRatio]

/-- A finite double divided by one that is no less than one is finite. -/
theorem isFinite_div {x y : Binary64} (hx : x.isFinite) (hy : AtLeastOne y) :
    (x / y).isFinite := by
  obtain ⟨place, hplace, hle⟩ := hy
  cases x with
  | nan => cases hx
  | infinite s => cases hx
  | finite s m hm =>
      cases y with
      | nan => cases hplace
      | infinite t => rfl
      | finite t n hn =>
          -- the units of the dividend are a bound on the quotient, and are a double
          have hunits : perOne ≤ n := by
            cases hplace
            unfold signed at hle
            split at hle <;> omega
          rw [finite_div_finite hm hn (Nat.lt_of_lt_of_le perOne_pos hunits)]
          exact isFinite_ofUnits hm (Nat.mul_le_mul_left m hunits)

theorem isFinite_neg {x : Binary64} (hx : x.isFinite) : (-x).isFinite := by
  cases x with
  | nan => cases hx
  | infinite s => cases hx
  | finite s n h => rfl

end Binary64

end PerfGate
