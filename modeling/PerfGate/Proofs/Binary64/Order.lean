import PerfGate.Binary64.Basic

/-!
# Binary64 — the order is total but for NaN

A double that is finite has a place on the line, and two places can always be compared. The places
of finite doubles are their signed units.
-/

namespace PerfGate.Binary64

/-! ## Finite doubles -/

section Finite

variable {s t : Bool} {m n : Nat} {hm : Representable m} {hn : Representable n}

theorem finite_le_iff : finite s m hm ≤ finite t n hn ↔ signed s m ≤ signed t n := by
  constructor
  · rintro ⟨a, ha, b, hb, hab⟩
    cases ha
    cases hb
    exact hab
  · exact fun h => ⟨_, rfl, _, rfl, h⟩

theorem finite_lt_iff : finite s m hm < finite t n hn ↔ signed s m < signed t n := by
  constructor
  · rintro ⟨a, ha, b, hb, hab⟩
    cases ha
    cases hb
    exact hab
  · exact fun h => ⟨_, rfl, _, rfl, h⟩

/-- Without signs the order is that of the units. -/
theorem finite_false_le_iff : finite false m hm ≤ finite false n hn ↔ m ≤ n := by
  rw [finite_le_iff]
  exact Int.ofNat_le

/-- A positive double has no sign. -/
theorem zero_lt_finite_iff : zero false < finite s n hn ↔ s = false ∧ 0 < n := by
  rw [zero, finite_lt_iff]
  cases s with
  | false => simp [signed]
  | true => simp [signed]

end Finite

/-! ## Comparability -/

theorem exists_place?_of_isFinite {x : Binary64} (h : x.isFinite) : ∃ a, x.place? = some a := by
  cases x with
  | nan => cases h
  | infinite s => cases h
  | finite s n hn => exact ⟨_, rfl⟩

theorem not_le_iff_lt {x y : Binary64} (hx : x.isFinite) (hy : y.isFinite) :
    ¬ x ≤ y ↔ y < x := by
  obtain ⟨a, ha⟩ := exists_place?_of_isFinite hx
  obtain ⟨b, hb⟩ := exists_place?_of_isFinite hy
  have hle : x ≤ y ↔ a ≤ b := by
    simp only [LE.le, ha, hb, Option.mem_some_iff, exists_eq_left']
  have hlt : y < x ↔ b < a := by
    simp only [LT.lt, ha, hb, Option.mem_some_iff, exists_eq_left']
  rw [hle, hlt, Int.not_le]

/-! ## Chains -/

section Chains

variable {x y z : Binary64}

protected theorem le_trans (hxy : x ≤ y) (hyz : y ≤ z) : x ≤ z := by
  obtain ⟨a, ha, b, hb, hab⟩ := hxy
  obtain ⟨b', hb', c, hc, hbc⟩ := hyz
  obtain rfl := Option.mem_unique hb hb'
  exact ⟨a, ha, c, hc, Int.le_trans hab hbc⟩

protected theorem lt_of_le_of_lt (hxy : x ≤ y) (hyz : y < z) : x < z := by
  obtain ⟨a, ha, b, hb, hab⟩ := hxy
  obtain ⟨b', hb', c, hc, hbc⟩ := hyz
  obtain rfl := Option.mem_unique hb hb'
  exact ⟨a, ha, c, hc, Int.lt_of_le_of_lt hab hbc⟩

protected theorem not_le_of_lt (hxy : x < y) : ¬ y ≤ x := by
  obtain ⟨a, ha, b, hb, hab⟩ := hxy
  rintro ⟨b', hb', a', ha', hba⟩
  obtain rfl := Option.mem_unique ha ha'
  obtain rfl := Option.mem_unique hb hb'
  omega

end Chains

end PerfGate.Binary64
