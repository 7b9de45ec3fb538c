import PerfGate.Proofs.Binary64.Value
import PerfGate.Proofs.Json.Scan

/-!
# Json — scanning misses a number by little

A scanned number is the one that is written, give or take a few roundings. Digits are dropped only
when sixty bits are kept, so what they are worth is no more than a `2 ^ 60`th (`exists_scanned`).
Scaling rounds the digits, a power of ten and their product or quotient, and does so twice for the
smallest numbers: `Around` is the bound that each of these steps carries on, and `Close` is what
becomes of it in the end (`scale?_close`, `exists_scan?_near`).
-/

namespace PerfGate

namespace Numeral

open Binary64

/-! ## What is kept of a numeral -/

section Kept

variable {digits : List Char}

/-- Digits behind a number, as a share of its last place. -/
theorem ofDigitChars_mem (h : ∀ c ∈ digits, c.isDigit) (significand : Nat) :
    10 ^ digits.length * significand ≤ Nat.ofDigitChars 10 digits significand ∧
      Nat.ofDigitChars 10 digits significand < 10 ^ digits.length * (significand + 1) := by
  have hlt := ofDigitChars_lt h
  rw [Nat.ofDigitChars_eq_ofDigitChars_zero, Nat.mul_succ]
  omega

/-- Digits behind a number add less than one of its last place, whatever the places are worth. -/
theorem ofDigitChars_mul_mem (h : ∀ c ∈ digits, c.isDigit) (significand : Nat) {p q : Int}
    (hq : q = p + digits.length) :
    significand * (10 : ℚ) ^ q ≤ Nat.ofDigitChars 10 digits significand * 10 ^ p ∧
      Nat.ofDigitChars 10 digits significand * (10 : ℚ) ^ p ≤ (significand + 1) * 10 ^ q := by
  obtain ⟨hle, hlt⟩ := ofDigitChars_mem h significand
  have hle' : (10 : ℚ) ^ digits.length * significand ≤ Nat.ofDigitChars 10 digits significand := by
    exact_mod_cast hle
  have hlt' : (Nat.ofDigitChars 10 digits significand : ℚ) ≤
      10 ^ digits.length * (significand + 1) := by exact_mod_cast hlt.le
  have hpower : (0 : ℚ) ≤ 10 ^ p := by positivity
  rw [hq, zpow_add₀ (by norm_num), zpow_natCast]
  constructor
  · calc significand * ((10 : ℚ) ^ p * 10 ^ digits.length)
        = 10 ^ digits.length * significand * 10 ^ p := by ring
      _ ≤ _ := mul_le_mul_of_nonneg_right hle' hpower
  · calc Nat.ofDigitChars 10 digits significand * (10 : ℚ) ^ p
        ≤ 10 ^ digits.length * (significand + 1) * 10 ^ p :=
          mul_le_mul_of_nonneg_right hlt' hpower
      _ = _ := by ring

/-- Digits are dropped only behind a number of sixty bits. -/
theorem keepDigits_cases (h : ∀ c ∈ digits, c.isDigit) (significand : Nat) :
    ∃ count ≤ digits.length, keepDigits significand digits =
        (Nat.ofDigitChars 10 (digits.take count) significand, count) ∧
      (count = digits.length ∨ 1 <<< 60 ≤ Nat.ofDigitChars 10 (digits.take count) significand) := by
  induction digits generalizing significand with
  | nil => exact ⟨0, Nat.le_refl _, rfl, .inl rfl⟩
  | cons c digits ih =>
      unfold keepDigits
      simp only
      split
      · obtain ⟨count, hcount, hkept, hall⟩ :=
          ih (fun d hd => h d (List.mem_cons_of_mem _ hd)) (significand * 10 + (c.toNat - '0'.toNat))
        refine ⟨count + 1, Nat.succ_le_succ hcount, ?_, ?_⟩
        · rw [hkept, List.take_succ_cons, Nat.ofDigitChars_cons, Nat.mul_comm 10]
        · rw [List.take_succ_cons, Nat.ofDigitChars_cons, Nat.mul_comm 10, List.length_cons,
            Nat.succ_inj]
          exact hall
      · -- the digit that does not fit is a nine at most
        rename_i hfull
        have hc : ∀ d ∈ [c], d.isDigit := List.forall_mem_singleton.2 (h c List.mem_cons_self)
        have hone := (ofDigitChars_mem hc significand).2
        rw [Nat.ofDigitChars_cons, Nat.ofDigitChars_nil, List.length_singleton, Nat.pow_one] at hone
        refine ⟨0, Nat.zero_le _, rfl, .inr ?_⟩
        show 1 <<< 60 ≤ significand
        have hbits : (1 <<< 64 : Nat) = 16 * 1 <<< 60 := rfl
        omega

end Kept

section Scanned

variable {n : Numeral}

/-- Digits that fit are all kept. -/
theorem scan?_of_lt (h : n.magnitude.significand < 1 <<< 64) :
    n.scan? = (scale? (.ofNat n.magnitude.significand) n.magnitude.exponent).map
      fun x => if n.negative then -x else x := by
  have hall : Nat.ofDigitChars 10 (n.fraction?.getD []) (Nat.ofDigitChars 10 n.whole 0) =
      n.magnitude.significand := by
    rw [← Nat.ofDigitChars_append]
    rfl
  have hwhole : Nat.ofDigitChars 10 n.whole 0 < 1 <<< 64 :=
    Nat.lt_of_le_of_lt (hall ▸ le_ofDigitChars _ _) h
  have hfraction := keepDigits_of_lt (hall.trans_lt h)
  unfold scan?
  simp only [keepDigits_of_lt hwhole, hfraction, hall, Nat.sub_self, Nat.cast_zero, Int.add_zero]
  rfl

/-- Two numbers that start with the same sixty bits or more are close. -/
theorem abs_sub_le_of_mem {b : Nat} {p : Int} {x y : ℚ} (hb : 1 <<< 60 ≤ b)
    (hx : b * (10 : ℚ) ^ p ≤ x ∧ x ≤ (b + 1) * 10 ^ p)
    (hy : b * (10 : ℚ) ^ p ≤ y ∧ y ≤ (b + 1) * 10 ^ p) : |x - y| ≤ y / 2 ^ 60 := by
  have hbits : (2 : ℚ) ^ 60 ≤ b := by exact_mod_cast hb
  have hpower : (0 : ℚ) < 10 ^ p := by positivity
  have hone : (10 : ℚ) ^ p ≤ y / 2 ^ 60 := by
    rw [le_div_iff₀ (by positivity)]
    calc (10 : ℚ) ^ p * 2 ^ 60 = 2 ^ 60 * 10 ^ p := mul_comm _ _
      _ ≤ b * 10 ^ p := mul_le_mul_of_nonneg_right hbits hpower.le
      _ ≤ y := hy.1
  rw [abs_le]
  constructor <;> linarith [hx.1, hx.2, hy.1, hy.2]

/-- Digits that are dropped before the point move it, and those behind it are dropped with them or
kept. -/
theorem abs_sub_le_of_whole_dropped {whole fraction : List Char} {a b : Nat} {x : Int}
    (hwhole : ∀ c ∈ whole, c.isDigit) (hfraction : ∀ c ∈ fraction, c.isDigit)
    (hb : b ≤ fraction.length) (hsixty : 1 <<< 60 ≤ Nat.ofDigitChars 10 (whole.take a) 0) :
    |Nat.ofDigitChars 10 (fraction.take b) (Nat.ofDigitChars 10 (whole.take a) 0) *
        (10 : ℚ) ^ (x + (whole.length - a : Nat) - b) -
      Nat.ofDigitChars 10 (whole ++ fraction) 0 * 10 ^ (x - fraction.length)| ≤
        Nat.ofDigitChars 10 (whole ++ fraction) 0 * 10 ^ (x - fraction.length) / 2 ^ 60 := by
  have hrest : ∀ c ∈ whole.drop a ++ fraction, c.isDigit := List.forall_mem_append.2
    ⟨fun c hc => hwhole c (List.mem_of_mem_drop hc), hfraction⟩
  have hexact := ofDigitChars_mul_mem hrest (Nat.ofDigitChars 10 (whole.take a) 0)
    (p := x - fraction.length) (q := x + (whole.length - a : Nat))
    (by rw [List.length_append, List.length_drop]; omega)
  have htake : ∀ c ∈ fraction.take b, c.isDigit := fun c hc =>
    hfraction c (List.mem_of_mem_take hc)
  have hkept := ofDigitChars_mul_mem htake
    (Nat.ofDigitChars 10 (whole.take a) 0) (p := x + (whole.length - a : Nat) - b)
    (q := x + (whole.length - a : Nat)) (by rw [List.length_take]; omega)
  rw [← Nat.ofDigitChars_append, ← List.append_assoc, List.take_append_drop] at hexact
  exact abs_sub_le_of_mem hsixty hkept hexact

/-- The point stays where it is if only the last digits of a fraction are dropped. -/
theorem abs_sub_le_of_fraction_dropped {whole fraction : List Char} {b : Nat} {x : Int}
    (hfraction : ∀ c ∈ fraction, c.isDigit) (hb : b ≤ fraction.length)
    (hsixty : 1 <<< 60 ≤ Nat.ofDigitChars 10 (whole ++ fraction.take b) 0) :
    |Nat.ofDigitChars 10 (whole ++ fraction.take b) 0 * (10 : ℚ) ^ (x - b) -
      Nat.ofDigitChars 10 (whole ++ fraction) 0 * 10 ^ (x - fraction.length)| ≤
        Nat.ofDigitChars 10 (whole ++ fraction) 0 * 10 ^ (x - fraction.length) / 2 ^ 60 := by
  have hrest : ∀ c ∈ fraction.drop b, c.isDigit := fun c hc =>
    hfraction c (List.mem_of_mem_drop hc)
  have hexact := ofDigitChars_mul_mem hrest (Nat.ofDigitChars 10 (whole ++ fraction.take b) 0)
    (p := x - fraction.length) (q := x - b) (by rw [List.length_drop]; omega)
  rw [← Nat.ofDigitChars_append, List.append_assoc, List.take_append_drop] at hexact
  refine abs_sub_le_of_mem hsixty ⟨le_refl _, ?_⟩ hexact
  exact mul_le_mul_of_nonneg_right (by linarith) (by positivity)

/-- **What is scaled is the numeral as it is written**, or a number of sixty bits that misses it by
less than its last place. -/
theorem exists_scanned (hn : n.WellFormed) :
    ∃ s < 1 <<< 64, ∃ e : Int,
      n.scan? = ((scale? (.ofNat s) e).map fun x => if n.negative then -x else x) ∧
      (s = n.magnitude.significand ∧ e = n.magnitude.exponent ∨
        1 <<< 60 ≤ s ∧ n.magnitude.exponent < e ∧
          |s * (10 : ℚ) ^ e - n.magnitude.toRat| ≤ n.magnitude.toRat / 2 ^ 60) := by
  have hfraction : ∀ c ∈ n.fraction?.getD [], c.isDigit := by
    cases hf : n.fraction? with
    | none => simp
    | some f => exact hn.fraction_digits f hf
  obtain ⟨a, ha, hkept, hwholeAll⟩ := keepDigits_cases hn.whole_digits 0
  obtain ⟨b, hb, hkept', hfractionAll⟩ := keepDigits_cases hfraction
    (Nat.ofDigitChars 10 (n.whole.take a) 0)
  have hscan : n.scan? = (scale? (.ofNat (Nat.ofDigitChars 10 ((n.fraction?.getD []).take b)
      (Nat.ofDigitChars 10 (n.whole.take a) 0)))
      (n.exponent?.getD 0 + (n.whole.length - a : Nat) - b)).map
        fun x => if n.negative then -x else x := by
    unfold scan?
    simp only [hkept, hkept']
  have hfits : Nat.ofDigitChars 10 ((n.fraction?.getD []).take b)
      (Nat.ofDigitChars 10 (n.whole.take a) 0) < 1 <<< 64 := by
    have hlt := keepDigits_lt (keepDigits_lt (shiftLeft_pos 64) n.whole) (n.fraction?.getD [])
    rwa [hkept, hkept'] at hlt
  refine ⟨_, hfits, _, hscan, ?_⟩
  unfold magnitude Decimal.toRat
  simp only
  generalize n.exponent?.getD 0 = x
  generalize n.fraction?.getD [] = fraction at *
  rcases Nat.lt_or_eq_of_le ha with hlt | rfl
  · -- what is dropped are the last digits before the point and some of those behind it
    have hsixty := hwholeAll.resolve_left hlt.ne
    exact .inr ⟨hsixty.trans (le_ofDigitChars _ _), by omega,
      abs_sub_le_of_whole_dropped hn.whole_digits hfraction hb hsixty⟩
  · rw [List.take_length, Nat.sub_self, Nat.cast_zero, Int.add_zero, ← Nat.ofDigitChars_append]
      at *
    rcases Nat.lt_or_eq_of_le hb with hlt | rfl
    · have hsixty := hfractionAll.resolve_left hlt.ne
      exact .inr ⟨hsixty, by omega, abs_sub_le_of_fraction_dropped hfraction hb hsixty⟩
    · rw [List.take_length]
      exact .inl ⟨rfl, rfl⟩

end Scanned

end Numeral

/-! ## What scaling makes of it -/

namespace Binary64

/-- A finite double that is not negative, between two shares of a number of units and `slack` units
beyond them. -/
def Around (x : Binary64) (exact low high slack : ℚ) : Prop :=
  ∃ n h, x = .finite false n h ∧ exact * low - slack ≤ n ∧ (n : ℚ) ≤ exact * high + slack

/-- A double that is not negative and misses a number of units by six shares of it and a unit at
most. -/
def Close (x : Binary64) (exact : ℚ) : Prop :=
  ∃ n h, x = .finite false n h ∧ |n - exact| ≤ 6 * roundoff * exact + 1

section Around

variable {x : Binary64} {exact low high slack : ℚ}

theorem around_finite {n : Nat} (hn : Representable n) : (finite false n hn).Around n 1 1 0 :=
  ⟨n, hn, rfl, by simp, by simp⟩

/-- Shares are six roundings at most, and what is beyond them is a unit. -/
theorem Around.close (h : x.Around exact low high slack) (hexact : 0 ≤ exact)
    (hlow : 1 - 6 * roundoff ≤ low) (hhigh : high ≤ 1 + 6 * roundoff) (hslack : slack ≤ 1) :
    x.Close exact := by
  obtain ⟨n, hn, hx, hge, hle⟩ := h
  have hbelow := mul_le_mul_of_nonneg_left hlow hexact
  have habove := mul_le_mul_of_nonneg_left hhigh hexact
  refine ⟨n, hn, hx, abs_le.2 ⟨?_, ?_⟩⟩ <;> linarith

/-- Zero is close to whatever is less than a unit. -/
theorem close_zero (hexact : 0 ≤ exact) (hone : exact ≤ 1) : (zero false).Close exact := by
  have hshare : 0 ≤ 6 * roundoff * exact := mul_nonneg (by norm_num [roundoff]) hexact
  refine ⟨0, representable_zero, rfl, ?_⟩
  rw [Nat.cast_zero, zero_sub, abs_neg, abs_of_nonneg hexact]
  linarith

/-- There is no double between zero and one unit. -/
theorem Around.eq_zero (h : x.Around exact low high slack) (hsmall : exact * high + slack < 1) :
    x = .zero false := by
  obtain ⟨n, hn, rfl, -, hle⟩ := h
  have hlt : (n : ℚ) < (1 : Nat) := by
    rw [Nat.cast_one]
    exact hle.trans_lt hsmall
  have hzero : n = 0 := Nat.lt_one_iff.1 (Nat.cast_lt.1 hlt)
  subst hzero
  rfl

/-- One more rounding, as long as the result stays finite. -/
theorem around_ofUnits {num den : Nat} (hden : 0 < den)
    (hfinite : (ofUnits false num den).isFinite) (hslack : 0 ≤ slack)
    (hlow : exact * low - slack ≤ num / den) (hhigh : (num : ℚ) / den ≤ exact * high + slack) :
    (ofUnits false num den).Around exact (low * (1 - roundoff)) (high * (1 + roundoff))
      (slack * (1 + roundoff) + 1 / 2) := by
  have hlt := roundUnits_lt_limit hfinite
  have hround := abs_le.1 (abs_roundUnits_sub_le num hden)
  have hpos := roundoff_pos
  have hone : 0 ≤ 1 - roundoff := by norm_num [roundoff]
  refine ⟨_, _, ofUnits_of_lt hlt, ?_, ?_⟩
  · calc exact * (low * (1 - roundoff)) - (slack * (1 + roundoff) + 1 / 2)
        ≤ exact * (low * (1 - roundoff)) - (slack * (1 - roundoff) + 1 / 2) := by
          have := mul_nonneg hslack hpos.le
          linarith
      _ = (exact * low - slack) * (1 - roundoff) - 1 / 2 := by ring
      _ ≤ num / den * (1 - roundoff) - 1 / 2 := by
          linarith [mul_le_mul_of_nonneg_right hlow hone]
      _ ≤ roundUnits num den := by linarith [hround.1]
  · calc (roundUnits num den : ℚ) ≤ num / den * (1 + roundoff) + 1 / 2 := by linarith [hround.2]
      _ ≤ (exact * high + slack) * (1 + roundoff) + 1 / 2 := by
          linarith [mul_le_mul_of_nonneg_right hhigh (by linarith : 0 ≤ 1 + roundoff)]
      _ = exact * (high * (1 + roundoff)) + (slack * (1 + roundoff) + 1 / 2) := by ring

end Around

end Binary64

namespace Numeral

open Binary64

section Steps

variable {x : Binary64} {exact low high slack : ℚ} {k : Nat}

/-- One multiplication by a power of ten. -/
theorem around_mul_tenTo (hx : x.Around exact low high slack) (hslack : 0 ≤ slack) (hk : k ≤ 308)
    (hfinite : (x * tenTo k).isFinite) :
    (x * tenTo k).Around (exact * 10 ^ k) (low * (1 - roundoff) * (1 - roundoff))
      (high * (1 + roundoff) * (1 + roundoff))
      (slack * 10 ^ k * (1 + roundoff) * (1 + roundoff) + 1 / 2) := by
  -- the power of ten was rounded to `n` units, and `m * n` is rounded again
  obtain ⟨m, hm, rfl, hge, hle⟩ := hx
  obtain ⟨n, hlow, hhigh, hproduct⟩ := exists_mul_tenTo hm hk
  have hper := cast_perOne_pos
  have hpos := roundoff_pos
  have hone : (0 : ℚ) < 1 - roundoff := by norm_num [roundoff]
  rw [hproduct] at hfinite ⊢
  apply around_ofUnits perOne_pos hfinite (by positivity)
  · rw [Nat.cast_mul, le_div_iff₀ hper]
    generalize (perOne : ℚ) = one at hper hlow ⊢
    calc (exact * 10 ^ k * (low * (1 - roundoff)) - slack * 10 ^ k * (1 + roundoff)) * one
        ≤ (exact * 10 ^ k * (low * (1 - roundoff)) - slack * 10 ^ k * (1 - roundoff)) * one := by
          gcongr
          linarith
      _ = (exact * low - slack) * (10 ^ k * one * (1 - roundoff)) := by ring
      _ ≤ m * (10 ^ k * one * (1 - roundoff)) := by gcongr
      _ ≤ m * n := by gcongr
  · rw [Nat.cast_mul, div_le_iff₀ hper]
    have hsum : 0 ≤ exact * high + slack := (Nat.cast_nonneg m).trans hle
    generalize (perOne : ℚ) = one at hper hhigh ⊢
    calc (m : ℚ) * n ≤ (exact * high + slack) * (10 ^ k * one * (1 + roundoff)) := by gcongr
      _ = (exact * 10 ^ k * (high * (1 + roundoff)) + slack * 10 ^ k * (1 + roundoff)) * one := by
          ring

/-- One division by a power of ten. -/
theorem around_div_tenTo (hx : x.Around exact low high slack) (hslack : 0 ≤ slack) (hk : k ≤ 308) :
    (x / tenTo k).Around (exact / 10 ^ k) (low / (1 + roundoff) * (1 - roundoff))
      (high / (1 - roundoff) * (1 + roundoff))
      (slack / (10 ^ k * (1 - roundoff)) * (1 + roundoff) + 1 / 2) := by
  obtain ⟨m, hm, rfl, hge, hle⟩ := hx
  obtain ⟨n, hn, -, hlow, hhigh, hquotient⟩ := exists_div_tenTo hm hk
  have hper := cast_perOne_pos
  have hpos := roundoff_pos
  have hone : (0 : ℚ) < 1 - roundoff := by norm_num [roundoff]
  have hcast : (0 : ℚ) < n := Nat.cast_pos.2 hn
  have hfinite : (finite false m hm / tenTo k).isFinite := isFinite_div rfl (atLeastOne_tenTo k)
  rw [hquotient] at hfinite ⊢
  apply around_ofUnits hn hfinite (by positivity)
  · rw [Nat.cast_mul]
    generalize (perOne : ℚ) = one at hper hhigh ⊢
    calc exact / 10 ^ k * (low / (1 + roundoff)) - slack / (10 ^ k * (1 - roundoff))
        ≤ exact / 10 ^ k * (low / (1 + roundoff)) - slack / (10 ^ k * (1 + roundoff)) := by
          gcongr
          linarith
      _ = (exact * low - slack) * one / (10 ^ k * one * (1 + roundoff)) := by field_simp
      _ ≤ m * one / (10 ^ k * one * (1 + roundoff)) := by gcongr
      _ ≤ m * one / n := by gcongr
  · rw [Nat.cast_mul]
    generalize (perOne : ℚ) = one at hper hlow ⊢
    calc m * one / n ≤ m * one / (10 ^ k * one * (1 - roundoff)) := by gcongr
      _ ≤ (exact * high + slack) * one / (10 ^ k * one * (1 - roundoff)) := by gcongr
      _ = exact / 10 ^ k * (high / (1 - roundoff)) + slack / (10 ^ k * (1 - roundoff)) := by
          field_simp

end Steps

section Scaled

variable {s : Nat} {e : Int} {x : Binary64}

theorem around_ofNat (hs : s < 1 <<< 64) :
    (ofNat s).Around (s * perOne) (1 - roundoff) (1 + roundoff) 0 := by
  obtain ⟨n, hn, hx, hge, hle⟩ := exists_ofNat (Nat.le_trans (Nat.le_of_lt hs) bits_le_powerOfTen)
  exact ⟨n, hn, hx, by linarith, by linarith⟩

/-- Zero divided by a power of ten is zero. -/
theorem zero_div_tenTo {k : Nat} (hk : k ≤ 308) : zero false / tenTo k = .zero false := by
  have h := around_div_tenTo (around_finite representable_zero) (le_refl 0) hk
  refine h.eq_zero ?_
  norm_num

theorem scale?_zero_of_neg (he : e < 0) : scale? (.zero false) e = some (.zero false) := by
  rcases Int.lt_or_le e (-308) with hlt | hge
  · rw [scale?_of_lt hlt, if_pos rfl]
  · rw [scale?_of_neg he hge, zero_div_tenTo (by omega)]

theorem ofNat_eq_zero_iff (hs : s < 1 <<< 64) : ofNat s = .zero false ↔ s = 0 := by
  constructor
  · intro hzero
    obtain ⟨n, hn, hx, hge, -⟩ := around_ofNat hs
    rw [hzero] at hx
    cases hx
    have hone : (0 : ℚ) < 1 - roundoff := by norm_num [roundoff]
    by_contra hne
    have hpos : (0 : ℚ) < s := Nat.cast_pos.2 (Nat.pos_of_ne_zero hne)
    have := mul_pos (mul_pos hpos cast_perOne_pos) hone
    rw [Nat.cast_zero] at hge
    linarith
  · rintro rfl
    exact ofNat_zero

theorem mul_perOne_le (hs : s < 1 <<< 64) : (s : ℚ) * perOne ≤ 10 ^ 400 := by
  have hnat : s * perOne ≤ 10 ^ 400 :=
    Nat.le_trans (Nat.mul_le_mul_right _ (Nat.le_of_lt hs)) (by decide +kernel)
  have hcast : ((s * perOne : Nat) : ℚ) ≤ (10 ^ 400 : Nat) := Nat.cast_le.2 hnat
  rwa [Nat.cast_mul, Nat.cast_pow, Nat.cast_ofNat] at hcast

/-- After a second division by ten or more, little is left of the first half unit. -/
theorem slack_le {power : ℚ} (hten : 10 ≤ power) :
    (0 / (10 ^ 308 * (1 - roundoff)) * (1 + roundoff) + 1 / 2) / (power * (1 - roundoff)) *
      (1 + roundoff) + 1 / 2 ≤ 3 / 5 := by
  have hhalf : (1 + roundoff) * (1 / 2) / (power * (1 - roundoff)) ≤ 1 / 10 := by
    rw [div_le_iff₀ (mul_pos (by linarith) (by norm_num [roundoff]))]
    norm_num [roundoff]
    linarith
  rw [zero_div, zero_mul, zero_add, div_mul_eq_mul_div, mul_comm (1 / 2 : ℚ)]
  linarith

/-- Numbers far below the smallest double are scaled to zero, however often they are divided. -/
theorem scale?_of_tiny (hs : s < 1 <<< 64) (he : e < -616) :
    scale? (.ofNat s) e = some (.zero false) := by
  have hfirst := around_div_tenTo (around_ofNat hs) (le_refl 0) (le_refl 308)
  have hsecond := around_div_tenTo hfirst (by norm_num) (le_refl 308)
  have hzero : ofNat s / tenTo 308 / tenTo 308 = .zero false := by
    apply hsecond.eq_zero
    have hexact : (s : ℚ) * perOne / 10 ^ 308 / 10 ^ 308 ≤ 1 / 10 := by
      rw [div_div, ← pow_add, div_le_iff₀ (by positivity)]
      have htenth : ∀ y : ℚ, y = 1 / 10 * (y * 10) := fun y => by ring
      calc (s : ℚ) * perOne ≤ 10 ^ 400 := mul_perOne_le hs
        _ ≤ 10 ^ 615 := pow_le_pow_right₀ (by norm_num) (by omega)
        _ = 1 / 10 * 10 ^ (308 + 308) := by rw [htenth (10 ^ 615), ← pow_succ]
    have hslack := slack_le (ten_le_pow (show 1 ≤ 308 by omega))
    have hhigh : (1 + roundoff) / (1 - roundoff) * (1 + roundoff) / (1 - roundoff) *
      (1 + roundoff) ≤ 2 := by norm_num [roundoff]
    have hproduct := mul_le_mul hexact hhigh (by norm_num [roundoff]) (by norm_num)
    exact (add_le_add hproduct hslack).trans_lt (by norm_num)
  rw [scale?_of_lt (by omega)]
  split_ifs with hx
  · rw [hx]
  · rw [scale?_of_lt (by omega)]
    split_ifs with hy
    · rw [hy]
    · rw [hzero, scale?_zero_of_neg (by omega)]

/-! ### Each range of powers -/

/-- One multiplication rounds three times. -/
theorem close_mul_tenTo (hs : s < 1 <<< 64) (he : 0 ≤ e) (hle : e ≤ 308)
    (hfinite : (ofNat s * tenTo e.natAbs).isFinite) :
    (ofNat s * tenTo e.natAbs).Close (s * (10 : ℚ) ^ e * perOne) := by
  have h := around_mul_tenTo (around_ofNat hs) (le_refl 0) (by omega) hfinite
  rw [mul_right_comm, ← Decimal.ten_zpow_of_nonneg he] at h
  refine h.close (exact_nonneg s e) ?_ ?_ ?_ <;> norm_num [roundoff]

/-- So does one division. -/
theorem close_div_tenTo (hs : s < 1 <<< 64) (he : e < 0) (hge : -308 ≤ e) :
    (ofNat s / tenTo e.natAbs).Close (s * (10 : ℚ) ^ e * perOne) := by
  have h := around_div_tenTo (around_ofNat hs) (le_refl 0) (k := e.natAbs) (by omega)
  rw [div_eq_mul_inv _ ((10 : ℚ) ^ _), mul_right_comm, ← Decimal.ten_zpow_of_neg he] at h
  refine h.close (exact_nonneg s e) ?_ ?_ ?_ <;> norm_num [roundoff]

/-- Two divisions round five times, and the second is by ten at least. -/
theorem close_div_div_tenTo (hs : s < 1 <<< 64) (he : e < -308) (hge : -616 ≤ e) :
    (ofNat s / tenTo 308 / tenTo (e + 308).natAbs).Close (s * (10 : ℚ) ^ e * perOne) := by
  have hfirst := around_div_tenTo (around_ofNat hs) (le_refl 0) (le_refl 308)
  have h := around_div_tenTo hfirst (by norm_num) (k := (e + 308).natAbs) (by omega)
  have hpower : s * perOne / 10 ^ 308 / 10 ^ (e + 308).natAbs = s * (10 : ℚ) ^ e * perOne := by
    rw [div_div, ← pow_add, div_eq_mul_inv, mul_right_comm, Decimal.ten_zpow_of_neg (by omega)]
    congr 4
    omega
  rw [hpower] at h
  refine h.close (exact_nonneg s e) ?_ ?_ ?_
  · norm_num [roundoff]
  · norm_num [roundoff]
  · exact (slack_le (ten_le_pow (by omega))).trans (by norm_num)

/-- Below that there is less than a unit. -/
theorem exact_le_one (hs : s < 1 <<< 64) (he : e < -616) : s * (10 : ℚ) ^ e * perOne ≤ 1 := by
  have hpower : (10 : ℚ) ^ e ≤ (10 ^ 400)⁻¹ := by
    rw [← zpow_natCast, ← zpow_neg]
    exact zpow_le_zpow_right₀ (by norm_num) (by omega)
  calc s * (10 : ℚ) ^ e * perOne = s * perOne * 10 ^ e := mul_right_comm _ _ _
    _ ≤ 10 ^ 400 * (10 ^ 400)⁻¹ :=
        mul_le_mul (mul_perOne_le hs) hpower (by positivity) (by positivity)
    _ = 1 := mul_inv_cancel₀ (by positivity)

/-- **Scaling misses the exact number by six shares and a unit at most.** -/
theorem scale?_close (hs : s < 1 <<< 64) (hx : scale? (.ofNat s) e = some x) :
    x.Close (s * (10 : ℚ) ^ e * perOne) := by
  -- zero is left as it is, wherever the point is
  have hzero : ofNat s = .zero false → some (ofNat s) = some x →
      x.Close (s * (10 : ℚ) ^ e * perOne) := by
    intro h hx
    rw [← Option.some.inj hx, h, (ofNat_eq_zero_iff hs).1 h]
    exact close_zero (by norm_num) (by norm_num)
  by_cases hlarge : 308 < e
  · rw [scale?, if_pos (by omega)] at hx
    split_ifs at hx with h hnonneg
    · exact hzero h hx
    · omega
  by_cases hnonneg : 0 ≤ e
  · rw [scale?_of_nonneg hnonneg (by omega), Option.ite_none_right_eq_some, Option.some.injEq] at hx
    obtain ⟨hfinite, rfl⟩ := hx
    exact close_mul_tenTo hs hnonneg (by omega) hfinite
  by_cases hge : -308 ≤ e
  · rw [scale?_of_neg (by omega) hge, Option.some.injEq] at hx
    rw [← hx]
    exact close_div_tenTo hs (by omega) hge
  by_cases htiny : e < -616
  · rw [scale?_of_tiny hs htiny, Option.some.injEq] at hx
    rw [← hx]
    exact close_zero (exact_nonneg s e) (exact_le_one hs htiny)
  · rw [scale?_of_lt (by omega)] at hx
    split_ifs at hx with h
    · exact hzero h hx
    · rw [scale?_of_neg (by omega) (by omega), Option.some.injEq] at hx
      rw [← hx]
      exact close_div_div_tenTo hs (by omega) (by omega)

/-! ### Powers of two -/

theorem exists_ofUnits_of_shiftLeft_le {num den k : Nat} (hden : 0 < den)
    (h : 1 <<< k * den ≤ num) (hfinite : (ofUnits false num den).isFinite) :
    ∃ n h, ofUnits false num den = .finite false n h ∧ 1 <<< k ≤ n :=
  ⟨_, _, ofUnits_of_lt (roundUnits_lt_limit hfinite), shiftLeft_le_roundUnits hden h⟩

theorem shiftLeft_le_ofNat {k a n : Nat} {hn : Representable n} (hk : 1 <<< a ≤ k)
    (hx : ofNat k = .finite false n hn) : 1 <<< a * perOne ≤ n := by
  have hunits : 1 <<< (a + 1074) * 1 ≤ k * perOne := by
    rw [shiftLeft_add, Nat.mul_one]
    exact Nat.mul_le_mul_right _ hk
  have hfinite : (ofNat k).isFinite := by rw [hx]; rfl
  obtain ⟨m, hm, hround, hle⟩ := exists_ofUnits_of_shiftLeft_le Nat.one_pos hunits hfinite
  have hsame : finite false m hm = finite false n hn := hround.symm.trans hx
  cases hsame
  rwa [shiftLeft_add] at hle

/-- Powers of two are not undercut: what is scaled from a number beyond one, by a power of ten beyond
another, lies beyond their product. -/
theorem exists_scale?_of_shiftLeft_le {a b : Nat} (hs : s < 1 <<< 64) (ha : 1 <<< a ≤ s)
    (he : 0 ≤ e) (hb : 1 <<< b ≤ Decimal.powerOfTen e.natAbs) (hx : scale? (.ofNat s) e = some x) :
    ∃ n h, x = .finite false n h ∧ 1 <<< (a + b) * perOne ≤ n := by
  have hle : e ≤ 308 := by
    by_contra hlarge
    have hne : ofNat s ≠ .zero false := fun h => by
      rw [(ofNat_eq_zero_iff hs).1 h] at ha
      exact absurd ha (Nat.not_le.2 (shiftLeft_pos a))
    rw [scale?, if_pos (by omega), if_neg hne, if_pos he] at hx
    cases hx
  rw [scale?_of_nonneg he hle, Option.ite_none_right_eq_some, Option.some.injEq] at hx
  obtain ⟨hfinite, rfl⟩ := hx
  obtain ⟨m, hm, hnat, -⟩ := around_ofNat hs
  obtain ⟨n, hn, hten, -⟩ := exists_ofNat (powerOfTen_mono (show e.natAbs ≤ 308 by omega))
  have hmle := shiftLeft_le_ofNat ha hnat
  have hnle := shiftLeft_le_ofNat hb hten
  have hproduct : ofNat s * tenTo e.natAbs = ofUnits false (m * n) perOne := by
    show ofNat s * ofNat (Decimal.powerOfTen e.natAbs) = _
    rw [hnat, hten, finite_mul_finite, Bool.bne_false]
  have hunits : 1 <<< (a + b + 1074) * perOne ≤ m * n := by
    rw [shiftLeft_add, shiftLeft_add]
    calc 1 <<< a * 1 <<< b * 1 <<< 1074 * perOne = 1 <<< a * perOne * (1 <<< b * perOne) := by
          show 1 <<< a * 1 <<< b * perOne * perOne = _
          ac_rfl
      _ ≤ m * n := Nat.mul_le_mul hmle hnle
  rw [hproduct] at hfinite ⊢
  obtain ⟨k, hk, hx, hle⟩ := exists_ofUnits_of_shiftLeft_le perOne_pos hunits hfinite
  rw [shiftLeft_add] at hle
  exact ⟨k, hk, hx, hle⟩

end Scaled

section Literal

variable {n : Numeral} {x : Binary64}

/-- **A scanned number misses the written one by seven shares and a unit at most**, and has its
sign. -/
theorem exists_scan?_near (hn : n.WellFormed) (hx : n.scan? = some x) :
    ∃ m hm, x = .finite n.negative m hm ∧
      |m - n.magnitude.toRat * perOne| ≤ 7 * roundoff * (n.magnitude.toRat * perOne) + 1 := by
  obtain ⟨s, hs, e, hscan, hclose⟩ := exists_scanned hn
  rw [hscan] at hx
  obtain ⟨y, hy, rfl⟩ := Option.map_eq_some_iff.1 hx
  obtain ⟨m, hm, rfl, hnear⟩ := scale?_close hs hy
  have hnonneg : 0 ≤ n.magnitude.toRat :=
    mul_nonneg (Nat.cast_nonneg _) (zpow_nonneg (by norm_num) _)
  have hkept : |s * (10 : ℚ) ^ e - n.magnitude.toRat| ≤ n.magnitude.toRat / 2 ^ 60 := by
    rcases hclose with ⟨rfl, rfl⟩ | ⟨-, -, hclose⟩
    · rw [Decimal.toRat, sub_self, abs_zero]
      exact div_nonneg hnonneg (by norm_num)
    · exact hclose
  refine ⟨m, hm, ?_, ?_⟩
  · cases n.negative <;> rfl
  · have hper := cast_perOne_pos
    generalize n.magnitude.toRat = q at hkept hnonneg ⊢
    generalize s * (10 : ℚ) ^ e = kept at hkept hnear
    generalize (perOne : ℚ) = one at hper hnear ⊢
    have hscaled : |kept * one - q * one| ≤ q * one / 2 ^ 60 := by
      rw [← sub_mul, abs_mul, abs_of_pos hper, mul_div_right_comm]
      exact mul_le_mul_of_nonneg_right hkept hper.le
    have hexact : 0 ≤ q * one := mul_nonneg hnonneg hper.le
    generalize q * one = exact at hscaled hexact ⊢
    generalize kept * one = y at hscaled hnear
    have hy : y ≤ exact * (1 + 1 / 2 ^ 60) := by linarith [(abs_le.1 hscaled).2]
    calc |(m : ℚ) - exact| ≤ |m - y| + |y - exact| := abs_sub_le _ _ _
      _ ≤ (6 * roundoff * y + 1) + exact / 2 ^ 60 := add_le_add hnear hscaled
      _ ≤ 7 * roundoff * exact + 1 := by
        norm_num [roundoff] at hy ⊢
        linarith

end Literal

end Numeral

end PerfGate
