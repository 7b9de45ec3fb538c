import Mathlib.Algebra.Order.Field.Power
import Mathlib.Data.Rat.Cast.Order
import Mathlib.Tactic.Linarith
import Mathlib.Tactic.Ring
import PerfGate.Json.Printer

/-!
# Decimal — the spelling of a double

The text of a finite double is a numeral: sign, digits, perhaps a point with more digits, perhaps an
exponent (`Json.doubleText_finite`). Wherever the layout puts the point, the numeral stands for the
shortest decimal of the double (`Layout.toRat_numeral`), and that decimal is not above the midpoint
to the next double (`toRat_shortest_le`).
-/

namespace PerfGate

namespace Numeral

/-- The digits behind a point. -/
def fractionText : Option (List Char) → List Char
  | none => []
  | some digits => '.' :: digits

/-- An exponent with its sign. -/
def exponentText : Option Int → List Char
  | none => []
  | some e => 'e' :: (if e < 0 then '-' else '+') :: Nat.toDigits 10 e.natAbs

/-- A numeral as it is written in a document. -/
def spelled (n : Numeral) : List Char :=
  (if n.negative then ['-'] else []) ++ n.whole ++ fractionText n.fraction? ++
    exponentText n.exponent?

/-- A numeral as the grammar of documents wants it: digits where there have to be some, and no zero
before the other digits. -/
structure WellFormed (n : Numeral) : Prop where
  whole_ne : n.whole ≠ []
  whole_digits : ∀ c ∈ n.whole, c.isDigit
  no_zero : n.whole.head? = some '0' → n.whole = ['0']
  fraction_ne : ∀ f ∈ n.fraction?, f ≠ []
  fraction_digits : ∀ f ∈ n.fraction?, ∀ c ∈ f, c.isDigit

end Numeral

/-! ## Digits -/

theorem digitChar_ne_zero : ∀ d < 10, 0 < d → some (Nat.digitChar d) ≠ some '0' := by decide

theorem isDigit_of_mem_toDigits {n : Nat} {c : Char} (h : c ∈ Nat.toDigits 10 n) : c.isDigit :=
  Nat.isDigit_of_mem_toDigits (by decide) (by decide) h

/-- The digits of a positive number do not start with a zero. -/
theorem head?_toDigits_ne_zero {n : Nat} (hn : 0 < n) : (Nat.toDigits 10 n).head? ≠ some '0' := by
  -- the leading digit stays when the last one is cut off
  induction n using Nat.strongRecOn with
  | ind n ih =>
      rcases Nat.lt_or_ge n 10 with hlt | hge
      · rw [Nat.toDigits_of_lt_base hlt]
        exact digitChar_ne_zero n hlt hn
      · have hrest := ih (n / 10) (by omega) (by omega)
        rw [Nat.toDigits_of_base_le (by decide) hge]
        obtain ⟨c, more, hc⟩ := List.exists_cons_of_ne_nil (Nat.toDigits_ne_nil (b := 10) (n := n / 10))
        rw [hc] at hrest ⊢
        exact hrest

theorem ofDigitChars_append_zeros (digits : List Char) (k n : Nat) :
    Nat.ofDigitChars 10 (digits ++ List.replicate k '0') n =
      Nat.ofDigitChars 10 digits n * 10 ^ k := by
  rw [Nat.ofDigitChars_append, Nat.ofDigitChars_replicate_zero, Nat.mul_comm]

/-! ## Values -/

namespace Decimal

/-- The number that a decimal is. -/
def toRat (d : Decimal) : ℚ := d.significand * (10 : ℚ) ^ d.exponent

theorem cast_powerOfTen (k : Nat) : (powerOfTen k : ℚ) = 10 ^ k := Nat.cast_pow 10 k

theorem ten_zpow_of_nonneg {e : Int} (he : 0 ≤ e) : (10 : ℚ) ^ e = 10 ^ e.natAbs := by
  rw [← zpow_natCast, Int.natAbs_of_nonneg he]

theorem ten_zpow_of_neg {e : Int} (he : e < 0) : (10 : ℚ) ^ e = (10 ^ e.natAbs)⁻¹ := by
  rw [← zpow_natCast, ← zpow_neg]
  congr 1
  omega

/-- Zeros behind the significand are taken off the exponent. -/
theorem toRat_shift (s k : Nat) (e : Int) : toRat ⟨s * 10 ^ k, e - k⟩ = toRat ⟨s, e⟩ := by
  unfold toRat
  push_cast
  rw [zpow_sub₀ (by norm_num), zpow_natCast, mul_assoc, mul_div_cancel₀ _ (by positivity)]

end Decimal

namespace Decimal.Layout

/-! ## Numerals of a layout -/

/-- The numeral of digits that are laid out without exponent. -/
def positionalNumeral (negative : Bool) (digits : List Char) (exponent : Int) : Numeral :=
  let lead := (digits.length : Int) - 1 + exponent
  if 0 ≤ exponent then
    ⟨negative, digits ++ List.replicate exponent.natAbs '0', some ['0'], none⟩
  else if 0 ≤ lead then
    ⟨negative, digits.take (lead.natAbs + 1), some (digits.drop (lead.natAbs + 1)), none⟩
  else ⟨negative, ['0'], some (List.replicate (lead.natAbs - 1) '0' ++ digits), none⟩

/-- The numeral of digits that are laid out with an exponent. -/
def scientificNumeral (negative : Bool) (digits : List Char) (exponent : Int) : Numeral :=
  ⟨negative, digits.take 1, if digits.length = 1 then none else some (digits.drop 1),
    some ((digits.length : Int) - 1 + exponent)⟩

/-- The numeral that a decimal is laid out as. -/
def numeral (l : Layout) (negative : Bool) (d : Decimal) : Numeral :=
  let digits := Nat.toDigits 10 d.significand
  if l.positional ((digits.length : Int) - 1 + d.exponent) then
    positionalNumeral negative digits d.exponent
  else scientificNumeral negative digits d.exponent

variable {l : Layout} {negative : Bool} {digits : List Char} {exponent : Int}

theorem spelled_positionalNumeral (hpoint : l.pointZero = true) :
    (positionalNumeral negative digits exponent).spelled =
      (if negative then ['-'] else []) ++ l.positionalText digits exponent := by
  unfold positionalNumeral positionalText
  simp only [hpoint, if_true]
  by_cases hwhole : 0 ≤ exponent
  · simp [hwhole, Numeral.spelled, Numeral.fractionText, Numeral.exponentText]
  · by_cases hinside : 0 ≤ (digits.length : Int) - 1 + exponent <;>
      simp [hwhole, hinside, Numeral.spelled, Numeral.fractionText, Numeral.exponentText]

theorem spelled_scientificNumeral (hplus : l.plus = true) :
    (scientificNumeral negative digits exponent).spelled =
      (if negative then ['-'] else []) ++ l.scientificText digits exponent := by
  have hsign : (if (digits.length : Int) - 1 + exponent < 0 then ['-'] else ['+']) =
      [if (digits.length : Int) - 1 + exponent < 0 then '-' else '+'] := by
    split_ifs <;> rfl
  unfold scientificNumeral scientificText
  simp only [hplus, if_true, hsign]
  by_cases hone : digits.length = 1 <;>
    simp [hone, Numeral.spelled, Numeral.fractionText, Numeral.exponentText]

/-- A layout that marks whole numbers and signs exponents writes numerals. -/
theorem text_finite (hpoint : l.pointZero = true) (hplus : l.plus = true) {n : Nat}
    (h : Binary64.Representable n) :
    l.text (.finite negative n h) = (l.numeral negative (shortest l.tie n)).spelled := by
  rw [text, magnitudeText, numeral]
  generalize shortest l.tie n = d
  by_cases hpositional : l.positional
      (((Nat.toDigits 10 d.significand).length : Int) - 1 + d.exponent) = true
  · simp only [hpositional, if_true, spelled_positionalNumeral hpoint]
  · simp only [hpositional, if_false, Bool.false_eq_true, spelled_scientificNumeral hplus]

theorem negative_numeral (l : Layout) (negative : Bool) (d : Decimal) :
    (l.numeral negative d).negative = negative := by
  unfold numeral positionalNumeral scientificNumeral
  simp only
  split_ifs <;> rfl

/-! ## What the numerals are worth -/

theorem toRat_positionalNumeral :
    (positionalNumeral negative digits exponent).magnitude.toRat =
      toRat ⟨Nat.ofDigitChars 10 digits 0, exponent⟩ := by
  unfold positionalNumeral
  simp only
  split_ifs with hwhole hinside
  · -- the point stands behind zeros, and one more follows it
    have hzeros : digits ++ List.replicate exponent.natAbs '0' ++ ['0'] =
        digits ++ List.replicate (exponent.natAbs + 1) '0' := by
      rw [List.append_assoc, List.replicate_succ']
    have hexponent : (0 : Int) - (['0'] : List Char).length =
        exponent - (exponent.natAbs + 1 : Nat) := by
      simp only [List.length_singleton]
      omega
    simp only [Numeral.magnitude, Option.getD_some, Option.getD_none, hzeros,
      ofDigitChars_append_zeros, hexponent, toRat_shift]
  · have hexponent : (0 : Int) -
        (digits.drop (((digits.length : Int) - 1 + exponent).natAbs + 1)).length = exponent := by
      rw [List.length_drop]
      omega
    simp only [Numeral.magnitude, Option.getD_some, Option.getD_none, List.take_append_drop,
      hexponent]
  · have hexponent : (0 : Int) - (List.replicate (((digits.length : Int) - 1 + exponent).natAbs - 1)
        '0' ++ digits).length = exponent := by
      rw [List.length_append, List.length_replicate]
      omega
    have hdigits : Nat.ofDigitChars 10 (['0'] ++
        (List.replicate (((digits.length : Int) - 1 + exponent).natAbs - 1) '0' ++ digits)) 0 =
          Nat.ofDigitChars 10 digits 0 := by
      simp [Nat.ofDigitChars_append, Nat.ofDigitChars_cons, Nat.ofDigitChars_replicate_zero]
    simp only [Numeral.magnitude, Option.getD_some, Option.getD_none, hexponent, hdigits]

theorem exponent_positionalNumeral (hne : digits ≠ []) :
    min (-1) exponent ≤ (positionalNumeral negative digits exponent).magnitude.exponent := by
  have hpos : 0 < digits.length := List.length_pos_iff.2 hne
  unfold positionalNumeral
  simp only
  split_ifs <;>
    simp only [Numeral.magnitude, Option.getD_some, Option.getD_none, List.length_singleton,
      List.length_drop, List.length_append, List.length_replicate] <;> omega

theorem magnitude_scientificNumeral (hne : digits ≠ []) :
    (scientificNumeral negative digits exponent).magnitude =
      ⟨Nat.ofDigitChars 10 digits 0, exponent⟩ := by
  have hpos : 0 < digits.length := List.length_pos_iff.2 hne
  have hfraction : (if digits.length = 1 then none else some (digits.drop 1) :
      Option (List Char)).getD [] = digits.drop 1 := by
    split_ifs with hone
    · rw [List.drop_of_length_le (by omega)]
      rfl
    · rfl
  have hexponent : (digits.length : Int) - 1 + exponent - (digits.drop 1).length = exponent := by
    rw [List.length_drop]
    omega
  simp only [scientificNumeral, Numeral.magnitude, hfraction, List.take_append_drop,
    Option.getD_some, hexponent]

/-- However it is laid out, the numeral of a decimal is worth that decimal. -/
theorem toRat_numeral (l : Layout) (negative : Bool) (d : Decimal) :
    (l.numeral negative d).magnitude.toRat = d.toRat := by
  have hdigits : Nat.ofDigitChars 10 (Nat.toDigits 10 d.significand) 0 = d.significand :=
    Nat.ofDigitChars_toDigits (by decide) (by decide)
  unfold numeral
  simp only
  split_ifs
  · rw [toRat_positionalNumeral, hdigits]
  · rw [magnitude_scientificNumeral Nat.toDigits_ne_nil, hdigits]

theorem exponent_numeral (l : Layout) (negative : Bool) (d : Decimal) :
    min (-1) d.exponent ≤ (l.numeral negative d).magnitude.exponent := by
  unfold numeral
  simp only
  split_ifs
  · exact exponent_positionalNumeral Nat.toDigits_ne_nil
  · rw [magnitude_scientificNumeral Nat.toDigits_ne_nil]
    exact min_le_right _ _

/-! ## The grammar -/

theorem wellFormed_positionalNumeral (hne : digits ≠ []) (hdigits : ∀ c ∈ digits, c.isDigit)
    (hzero : digits.head? = some '0' → digits = ['0'] ∧ exponent = 0) :
    (positionalNumeral negative digits exponent).WellFormed := by
  have hpos : 0 < digits.length := List.length_pos_iff.2 hne
  have hreplicate : ∀ k, ∀ c ∈ List.replicate k '0', c.isDigit := by
    intro k c hc
    rw [List.eq_of_mem_replicate hc]
    rfl
  unfold positionalNumeral
  simp only
  split_ifs with hwhole hinside
  · refine ⟨by simp [hne], ?_, ?_, by simp, by simp⟩
    · exact List.forall_mem_append.2 ⟨hdigits, hreplicate _⟩
    · intro h
      rw [List.head?_append, List.head?_eq_some_head hne, Option.some_or, ← List.head?_eq_some_head] at h
      obtain ⟨rfl, rfl⟩ := hzero h
      rfl
  · have hlead : ((digits.length : Int) - 1 + exponent).natAbs + 1 < digits.length := by omega
    refine ⟨by simp [hne], fun c hc => hdigits c (List.mem_of_mem_take hc), ?_, ?_, ?_⟩
    · intro h
      rw [List.head?_take, if_neg (by omega)] at h
      have hexponent := (hzero h).2
      omega
    · rintro f ⟨⟩
      simpa using hlead
    · rintro f ⟨⟩ c hc
      exact hdigits c (List.mem_of_mem_drop hc)
  · refine ⟨by simp, by simp, by simp, ?_, ?_⟩
    · rintro f ⟨⟩
      simp [hne]
    · rintro f ⟨⟩
      exact List.forall_mem_append.2 ⟨hreplicate _, hdigits⟩

theorem wellFormed_scientificNumeral (hne : digits ≠ []) (hdigits : ∀ c ∈ digits, c.isDigit) :
    (scientificNumeral negative digits exponent).WellFormed := by
  obtain ⟨c, more, rfl⟩ := List.exists_cons_of_ne_nil hne
  unfold scientificNumeral
  refine ⟨by simp, ?_, ?_, ?_, ?_⟩
  · intro d hd
    exact hdigits d (List.mem_of_mem_take hd)
  · intro h
    simpa using h
  · intro f hf
    split_ifs at hf with hone
    · cases hf
    · cases hf
      rintro hnil
      exact hone (by simpa using hnil)
  · intro f hf
    split_ifs at hf with hone
    · cases hf
    · cases hf
      exact fun d hd => hdigits d (List.mem_of_mem_drop hd)

theorem wellFormed_numeral {d : Decimal} (hd : d.significand = 0 → d.exponent = 0) :
    (l.numeral negative d).WellFormed := by
  have hdigits : ∀ c ∈ Nat.toDigits 10 d.significand, c.isDigit := fun c => isDigit_of_mem_toDigits
  unfold numeral
  simp only
  split_ifs
  · apply wellFormed_positionalNumeral Nat.toDigits_ne_nil hdigits
    intro hhead
    have hzero : d.significand = 0 := by
      by_contra hne
      exact head?_toDigits_ne_zero (Nat.pos_of_ne_zero hne) hhead
    rw [hzero]
    exact ⟨rfl, hd hzero⟩
  · exact wellFormed_scientificNumeral Nat.toDigits_ne_nil hdigits

end Decimal.Layout

namespace Decimal

/-! ## The shortest decimal -/

theorem spacing_le_self {n : Nat} (hn : 0 < n) : Binary64.spacing n ≤ n := by
  calc Binary64.spacing n ≤ 1 <<< n.log2 := by
        rw [Binary64.spacing, Nat.one_shiftLeft, Nat.one_shiftLeft]
        exact Nat.pow_le_pow_right (by decide) (Nat.sub_le _ _)
    _ ≤ n := by
        rw [Nat.one_shiftLeft]
        exact Nat.log2_self_le (by omega)

/-- A point of a grid that rounds to a double lies between the midpoints around it. -/
theorem onGrid?_mem {tie : Tie} {n point : Nat} {e : Int} (h : onGrid? tie n e = some point) :
    (4 * n - 2 * Binary64.spacing n) * (if e < 0 then powerOfTen e.natAbs else 1) ≤
        point * (4 * Binary64.perOne * (if e < 0 then 1 else powerOfTen e.natAbs)) ∧
      point * (4 * Binary64.perOne * (if e < 0 then 1 else powerOfTen e.natAbs)) ≤
        (4 * n + 2 * Binary64.spacing n) * (if e < 0 then powerOfTen e.natAbs else 1) := by
  unfold onGrid? at h
  extract_lets step scale cell value gapBelow low high closed inside below rest preferBelow at h
  -- the gap below is narrower at a power of two
  have hbelow : (4 * n - 2 * step) * scale ≤ low := by
    apply Nat.mul_le_mul_right
    unfold gapBelow
    split_ifs <;> omega
  have hinside : ∀ q, inside q = true → low ≤ q * cell ∧ q * cell ≤ high := by
    intro q hq
    unfold inside at hq
    split_ifs at hq <;> simp only [Bool.and_eq_true, decide_eq_true_eq] at hq <;> omega
  have hpoint : inside point = true := by
    split_ifs at h with hchosen habove
    · rw [Bool.and_eq_true] at hchosen
      rw [← Option.some.inj h]
      exact hchosen.1
    · rw [← Option.some.inj h]
      exact habove
  exact ⟨Nat.le_trans hbelow (hinside point hpoint).1, (hinside point hpoint).2⟩

theorem onGrid?_ne_zero {tie : Tie} {n point : Nat} {e : Int} (hn : 0 < n)
    (h : onGrid? tie n e = some point) : point ≠ 0 := by
  rintro rfl
  have hlow := (onGrid?_mem h).1
  have hstep := spacing_le_self hn
  have hscale : 0 < (if e < 0 then powerOfTen e.natAbs else 1) := by
    split_ifs
    · exact Nat.pow_pos (by decide)
    · exact Nat.one_pos
  rw [Nat.zero_mul, Nat.le_zero, Nat.mul_eq_zero] at hlow
  omega

/-- A point of a grid that rounds to a double is no larger than the midpoint above. -/
theorem toRat_onGrid?_le {tie : Tie} {n point : Nat} {e : Int} (h : onGrid? tie n e = some point) :
    toRat ⟨point, e⟩ * Binary64.perOne ≤ n + Binary64.spacing n / 2 := by
  have hhigh : ((point * (4 * Binary64.perOne * (if e < 0 then 1 else powerOfTen e.natAbs)) : Nat) :
      ℚ) ≤ ((4 * n + 2 * Binary64.spacing n) *
        (if e < 0 then powerOfTen e.natAbs else 1) : Nat) := by
    exact_mod_cast (onGrid?_mem h).2
  show (point : ℚ) * 10 ^ e * Binary64.perOne ≤ _
  generalize Binary64.perOne = one at hhigh ⊢
  split_ifs at hhigh with he
  · push_cast [cast_powerOfTen] at hhigh
    have hpos : (0 : ℚ) < (10 : ℚ) ^ e.natAbs := by positivity
    rw [ten_zpow_of_neg he, mul_right_comm, ← div_eq_mul_inv, div_le_iff₀ hpos]
    linarith
  · push_cast [cast_powerOfTen] at hhigh
    rw [ten_zpow_of_nonneg (not_lt.1 he)]
    linarith

/-- The shortest decimal of a double comes from one of the grids, if it is not zero. -/
theorem shortest_eq (tie : Tie) (n : Nat) :
    shortest tie n = ⟨0, 0⟩ ∨ 0 < n ∧ ceiling n - 20 ≤ (shortest tie n).exponent ∧
      onGrid? tie n (shortest tie n).exponent = some (shortest tie n).significand := by
  unfold shortest
  split_ifs with hn
  · exact .inl rfl
  · simp only
    generalize hfound : (List.range 21).findSome? _ = found
    cases found with
    | none => exact .inl rfl
    | some d =>
        right
        obtain ⟨i, hi, hcandidate⟩ := List.exists_of_findSome?_eq_some hfound
        obtain ⟨point, hpoint, rfl⟩ := Option.map_eq_some_iff.1 hcandidate
        have hlast : i < 21 := List.mem_range.1 hi
        refine ⟨Nat.pos_of_ne_zero hn, ?_, hpoint⟩
        show ceiling n - 20 ≤ ceiling n - (i : Int)
        omega

theorem exponent_shortest_of_zero {tie : Tie} {n : Nat} (h : (shortest tie n).significand = 0) :
    (shortest tie n).exponent = 0 := by
  rcases shortest_eq tie n with hzero | ⟨hn, -, hpoint⟩
  · rw [hzero]
  · exact absurd h (onGrid?_ne_zero hn hpoint)

/-- The grids are tried down to the last digit of the smallest double, and a few places further. -/
theorem le_exponent_shortest (tie : Tie) (n : Nat) : -343 ≤ (shortest tie n).exponent := by
  rcases shortest_eq tie n with hzero | ⟨-, hgrid, -⟩
  · rw [hzero]
    decide
  · have hceiling : -323 ≤ ceiling n := by
      unfold ceiling
      omega
    omega

/-- **The shortest decimal of a double is no larger than the midpoint above it.** -/
theorem toRat_shortest_le (tie : Tie) (n : Nat) :
    (shortest tie n).toRat * Binary64.perOne ≤ n + Binary64.spacing n / 2 := by
  rcases shortest_eq tie n with hzero | ⟨-, -, hpoint⟩
  · rw [hzero]
    simp only [toRat, Nat.cast_zero, zero_mul]
    exact add_nonneg (Nat.cast_nonneg _) (div_nonneg (Nat.cast_nonneg _) (by norm_num))
  · exact toRat_onGrid?_le hpoint

end Decimal

end PerfGate
