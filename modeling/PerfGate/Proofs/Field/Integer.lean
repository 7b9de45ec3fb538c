import PerfGate.Proofs.Json.Literal
import PerfGate.Proofs.Json.ScanError
import PerfGate.Proofs.Rows.Basic

/-!
# Field — integers are read exactly

A size is an integer, a double or a string, and what it is read as is what it stands for
(`StandsFor`): nothing wraps round and nothing stops at a limit. An integer literal beyond 64 bits is
read as a double, and scanning does not bring it back into the range
(`Numeral.le_value_of_scan?_whole`), so it is refused like every double from `2 ^ 63` on.
-/

namespace PerfGate

theorem isInt64_iff {i : Int} :
    isInt64 i = true ↔ -9223372036854775808 ≤ i ∧ i < 9223372036854775808 := by
  rw [isInt64, Bool.and_eq_true, decide_eq_true_eq, decide_eq_true_eq]
  rfl

namespace Numeral

open Binary64

variable {n : Numeral} {x : Binary64}

/-- The number of a literal without point and exponent. -/
theorem toRat_whole (hfraction : n.fraction? = none) (hexponent : n.exponent? = none) :
    n.toRat = (signed n.negative (Nat.ofDigitChars 10 n.whole 0) : Int) := by
  have hmagnitude : n.magnitude.toRat = Nat.ofDigitChars 10 n.whole 0 := by
    simp [magnitude, Decimal.toRat, hfraction, hexponent]
  rw [toRat, hmagnitude]
  cases n.negative with
  | false => simp [signed]
  | true => simp [signed]

/-- An integer of a document is worth what it says. -/
theorem eq_of_integer?_eq_some {j : Int} (h : n.integer? = some j) :
    j = signed n.negative (Nat.ofDigitChars 10 n.whole 0) := by
  simp only [integer?, Option.ite_none_right_eq_some] at h
  obtain ⟨-, h⟩ := h
  unfold signed
  split_ifs at h ⊢ with hnegative hrange hlt
  · exact (Option.some.inj h).symm
  · exact (Option.some.inj h).symm

/-- A literal without point and exponent that is no integer is the negative zero or beyond the
range. -/
theorem zero_or_large_of_integer?_eq_none (hfraction : n.fraction? = none)
    (hexponent : n.exponent? = none) (h : n.integer? = none) :
    n.negative = true ∧ Nat.ofDigitChars 10 n.whole 0 = 0 ∨
      1 <<< 63 ≤ Nat.ofDigitChars 10 n.whole 0 ∧
        isInt64 (signed n.negative (Nat.ofDigitChars 10 n.whole 0)) = false := by
  have hbits : (1 <<< 64 : Nat) = 18446744073709551616 ∧
      (1 <<< 63 : Nat) = 9223372036854775808 := ⟨rfl, rfl⟩
  rw [integer?, if_pos ⟨hfraction, hexponent⟩] at h
  simp only at h
  rw [← Bool.not_eq_true, isInt64_iff, signed]
  split_ifs at h ⊢ with hnegative
  · simp only [hnegative, true_and]
    omega
  · right
    omega

/-- **A whole literal from `2 ^ 63` on is not scanned to less.** Either all its digits are kept, or
sixty bits of it, and then the first digit that is not kept stands for three bits more. -/
theorem le_value_of_scan?_whole (hn : n.WellFormed) (hfraction : n.fraction? = none)
    (hexponent : n.exponent? = none) (hlarge : 1 <<< 63 ≤ Nat.ofDigitChars 10 n.whole 0)
    (hx : n.scan? = some x) : x.isFinite ∧ 2 ^ 63 ≤ |x.value| := by
  have hsignificand : n.magnitude.significand = Nat.ofDigitChars 10 n.whole 0 := by
    simp [magnitude, hfraction]
  have hpoint : n.magnitude.exponent = 0 := by simp [magnitude, hfraction, hexponent]
  obtain ⟨s, hs, e, hscan, hkept⟩ := exists_scanned hn
  rw [hscan] at hx
  obtain ⟨y, hy, rfl⟩ := Option.map_eq_some_iff.1 hx
  obtain ⟨m, hm, rfl, hle⟩ : ∃ m h, y = .finite false m h ∧ 1 <<< 63 * perOne ≤ m := by
    rcases hkept with ⟨rfl, rfl⟩ | ⟨hsixty, hpositive, -⟩
    · rw [hsignificand] at hs hy
      refine exists_scale?_of_shiftLeft_le (b := 0) hs hlarge hpoint.ge ?_ hy
      rw [hpoint]
      decide
    · rw [hpoint] at hpositive
      refine exists_scale?_of_shiftLeft_le (b := 3) hs hsixty hpositive.le ?_ hy
      exact Nat.le_trans (by decide) (powerOfTen_mono (show 1 ≤ e.natAbs by omega))
  have hvalue : (2 : ℚ) ^ 63 ≤ m / perOne := by
    rw [le_div_iff₀ cast_perOne_pos]
    exact_mod_cast hle
  cases n.negative with
  | false => exact ⟨rfl, (abs_value_finite hm).symm ▸ hvalue⟩
  | true => exact ⟨rfl, (abs_value_finite hm).symm ▸ hvalue⟩

end Numeral

namespace Field

open Binary64

/-- The integer that a field value stands for: itself if it has 64 bits, a double of that range
without its fraction, or the whole number that is all of a string but the white space around it. -/
inductive StandsFor : Json.Value → Int → Prop where
  | integer {i : Int} (h : isInt64 i) : StandsFor (.integer i) i
  | real {x : Binary64} (hx : x.isFinite) (h : |x.value| < 2 ^ 63) :
      StandsFor (.real x) (truncated x.value)
  | string {s : String} {i : Int} (hs : Numeral.SpellsWhole (Text.trim s.toList) i)
      (h : isInt64 i) : StandsFor (.string s) i

variable {v : Json.Value} {i : Int}

/-- **What is read is what the value stands for**, and nothing else is read. -/
theorem readInteger?_eq_some_iff : readInteger? v = some i ↔ StandsFor v i := by
  constructor
  · intro h
    cases v with
    | integer j =>
        rw [readInteger?, Option.ite_none_right_eq_some, Option.some.injEq] at h
        obtain ⟨hj, rfl⟩ := h
        exact .integer hj
    | real x =>
        rw [readInteger?, Option.filter_eq_some_iff, truncate?_eq_some_iff, decide_eq_true_eq] at h
        obtain ⟨⟨hx, rfl⟩, hlt⟩ := h
        exact .real hx ((natAbs_truncated_lt_iff hx).1 hlt)
    | string s =>
        rw [readInteger?, readInt64?, Option.filter_eq_some_iff, Numeral.readWhole?_eq_some_iff] at h
        exact .string h.1 h.2
    | null => cases h
    | bool b => cases h
    | array items => cases h
    | object members => cases h
  · intro h
    cases h with
    | integer h => exact if_pos h
    | real hx h =>
        rw [readInteger?, Option.filter_eq_some_iff, truncate?_eq_some_iff, decide_eq_true_eq]
        exact ⟨⟨hx, rfl⟩, (natAbs_truncated_lt_iff hx).2 h⟩
    | string hs h =>
        rw [readInteger?, readInt64?, Option.filter_eq_some_iff, Numeral.readWhole?_eq_some_iff]
        exact ⟨hs, h⟩

/-! ## Numbers -/

/-- A double from `2 ^ 63` on is refused. -/
theorem readInteger?_large {x : Binary64} (h : 2 ^ 63 ≤ |x.value|) :
    readInteger? (.real x) = none := by
  rw [Option.eq_none_iff_forall_ne_some]
  intro i hi
  cases readInteger?_eq_some_iff.1 hi with
  | real hx hlt => exact absurd h (not_le.2 hlt)

/-- The negative zero, which is no integer of a document, is read as zero. -/
theorem scan?_negativeZero {n : Numeral} (hfraction : n.fraction? = none)
    (hexponent : n.exponent? = none) (hnegative : n.negative = true)
    (hzero : Nat.ofDigitChars 10 n.whole 0 = 0) : n.scan? = some (.zero true) := by
  have hproduct : zero false * Numeral.tenTo 0 = zero false := by decide +kernel
  have hmagnitude : n.magnitude = ⟨0, 0⟩ := by
    simp [Numeral.magnitude, hfraction, hexponent, hzero]
  rw [Numeral.scan?_of_lt (by rw [hmagnitude]; exact shiftLeft_pos 64), hmagnitude, ofNat_zero,
    Numeral.scale?_of_nonneg (le_refl 0) (by decide), Int.natAbs_zero, hproduct, hnegative]
  rfl

/-- **An integer of a document is read as the integer that it is**, if that has 64 bits, and is
refused otherwise. -/
theorem readInteger?_literal {text : List Char} {n : Numeral} (h : Json.IsNumber text n)
    (hfraction : n.fraction? = none) (hexponent : n.exponent? = none)
    (hv : Json.parse? text = some v) :
    readInteger? v = some i ↔ (i : ℚ) = n.toRat ∧ isInt64 i := by
  obtain ⟨hn, -⟩ := h.exists_written
  rw [h.parse?_eq, Json.numberValue?] at hv
  rw [Numeral.toRat_whole hfraction hexponent, Int.cast_inj]
  cases hinteger : n.integer? with
  | some j =>
      rw [hinteger] at hv
      cases hv
      rw [← Numeral.eq_of_integer?_eq_some hinteger, readInteger?, Option.ite_none_right_eq_some,
        Option.some.injEq, and_comm, eq_comm]
      exact and_congr_right fun h => by rw [h]
  | none =>
      rw [hinteger] at hv
      obtain ⟨x, hx, rfl⟩ := Option.map_eq_some_iff.1 hv
      rcases Numeral.zero_or_large_of_integer?_eq_none hfraction hexponent hinteger with
        ⟨hnegative, hzero⟩ | ⟨hlarge, hrange⟩
      · rw [scan?_negativeZero hfraction hexponent hnegative hzero] at hx
        cases hx
        have hminus : readInteger? (.real (.zero true)) = some 0 := by decide +kernel
        have hsigned : signed n.negative (Nat.ofDigitChars 10 n.whole 0) = 0 := by
          rw [hnegative, hzero]
          rfl
        rw [hminus, hsigned, Option.some.injEq, eq_comm]
        exact ⟨fun h => ⟨h, by rw [h]; rfl⟩, And.left⟩
      · rw [readInteger?_large (Numeral.le_value_of_scan?_whole hn hfraction hexponent hlarge hx).2]
        constructor
        · intro h
          cases h
        · rintro ⟨rfl, h⟩
          rw [hrange] at h
          cases h

/-- Any other number of a document is read as a finite double, and so as its whole part. -/
theorem exists_readInteger?_literal {text : List Char} {n : Numeral} (h : Json.IsNumber text n)
    (hmarked : ¬ (n.fraction? = none ∧ n.exponent? = none)) (hv : Json.parse? text = some v) :
    ∃ x, v = .real x ∧ x.isFinite ∧
      ∀ i, readInteger? v = some i ↔ |x.value| < 2 ^ 63 ∧ i = truncated x.value := by
  have hinteger : n.integer? = none := if_neg hmarked
  rw [h.parse?_eq, Json.numberValue?, hinteger] at hv
  obtain ⟨x, hx, rfl⟩ := Option.map_eq_some_iff.1 hv
  obtain ⟨m, hm, rfl, -⟩ := Numeral.exists_scan?_near h.exists_written.1 hx
  refine ⟨_, rfl, rfl, fun i => readInteger?_eq_some_iff.trans ⟨?_, ?_⟩⟩
  · rintro ⟨⟩
    exact ⟨‹_›, rfl⟩
  · rintro ⟨hlt, rfl⟩
    exact .real rfl hlt

/-- An integer that is beyond 64 bits is no double within them. -/
theorem le_value_ofInt {j : Int} (hx : (ofInt j).isFinite) (hlarge : 1 <<< 63 ≤ j.natAbs) :
    2 ^ 63 ≤ |(ofInt j).value| := by
  have hunits : 1 <<< (63 + 1074) * 1 ≤ j.natAbs * perOne := by
    rw [shiftLeft_add, Nat.mul_one]
    exact Nat.mul_le_mul_right _ hlarge
  have hlt := roundUnits_lt_limit hx
  have hround := shiftLeft_le_roundUnits Nat.one_pos hunits
  have hfinite : ofInt j = .finite (decide (j < 0)) _ (representable_roundUnits hlt) :=
    ofUnits_of_lt hlt
  rw [hfinite, abs_value_finite, le_div_iff₀ cast_perOne_pos]
  rw [shiftLeft_add] at hround
  exact_mod_cast hround

/-- Every number whose double is in the range is accepted. -/
theorem exists_readInteger?_of_lt {x : Binary64} (hv : v.toDouble? = some x) (hx : x.isFinite)
    (hlt : |x.value| < 2 ^ 63) : ∃ i, readInteger? v = some i := by
  cases v with
  | integer j =>
      cases hv
      have hsmall : j.natAbs < 1 <<< 63 := by
        by_contra hlarge
        exact absurd hlt (not_lt.2 (le_value_ofInt hx (Nat.not_lt.1 hlarge)))
      have hbits : (1 <<< 63 : Nat) = 9223372036854775808 := rfl
      exact ⟨j, if_pos (isInt64_iff.2 (by omega))⟩
  | real y =>
      cases hv
      exact ⟨_, readInteger?_eq_some_iff.2 (.real hx hlt)⟩
  | null => cases hv
  | bool b => cases hv
  | string s => cases hv
  | array items => cases hv
  | object members => cases hv

/-! ## Strings -/

theorem spellsWhole_toString (j : Int) : Numeral.SpellsWhole (toString j).toList j := by
  have hdigits : ∀ c ∈ Nat.toDigits 10 j.natAbs, c.isDigit := fun c => isDigit_of_mem_toDigits
  have hvalue : Nat.ofDigitChars 10 (Nat.toDigits 10 j.natAbs) 0 = j.natAbs :=
    Nat.ofDigitChars_toDigits (by decide) (by decide)
  rw [Json.toString_eq_spelled]
  unfold Json.integerNumeral Numeral.spelled Numeral.fractionText Numeral.exponentText
  simp only [List.append_nil, decide_eq_true_eq]
  split_ifs with hnegative
  · have h := Numeral.SpellsWhole.minus Nat.toDigits_ne_nil hdigits
    rwa [hvalue, show -(j.natAbs : Int) = j by omega] at h
  · have h := Numeral.SpellsWhole.unsigned Nat.toDigits_ne_nil hdigits
    rwa [hvalue, show (j.natAbs : Int) = j by omega] at h

/-- The text of an integer is read as that integer, whatever white space is around it. -/
theorem readInteger?_padded {j : Int} (hj : isInt64 j) {before after : List Char}
    (hbefore : ∀ c ∈ before, Text.isBlank c) (hafter : ∀ c ∈ after, Text.isBlank c) :
    readInteger? (.string (String.ofList (before ++ (toString j).toList ++ after))) = some j := by
  refine readInteger?_eq_some_iff.2 (.string ?_ hj)
  rw [String.toList_ofList, (Json.isNumber_integerNumeral j).trim_eq hbefore hafter]
  exact spellsWhole_toString j

/-! ## Every field value -/

/-- What does not stand for an integer is an error that names the field, the line and the value. -/
theorem readField_integer_eq_error {r : Record} {w : Workload} {name : String}
    (hget : r.get? name = some v) (h : ∀ i, ¬ StandsFor v i) :
    r.readField w .integer readInteger? name = .error (.invalidField name r.line .integer v) := by
  have hnone : readInteger? v = none :=
    Option.eq_none_iff_forall_ne_some.2 fun i hi => h i (readInteger?_eq_some_iff.1 hi)
  simp [Record.readField, Record.require, hget, hnone, bind, Except.bind, throw, throwThe,
    MonadExceptOf.throw]

/-- **Sizes are read exactly.** A field value is read as the integer that it stands for and is
otherwise an error. In a document, a literal without point and exponent stands for the integer that
it is, as far as that has 64 bits; any other is a double, and every number whose double is below
`2 ^ 63` in magnitude is read. So an integer of that range is the same size as a literal, as a double
of that value and as a string, whatever white space is around it. -/
theorem readInteger?_exact :
    (∀ v i, readInteger? v = some i ↔ StandsFor v i) ∧
    (∀ {text n v}, Json.IsNumber text n → n.fraction? = none → n.exponent? = none →
      Json.parse? text = some v →
        ∀ i, readInteger? v = some i ↔ (i : ℚ) = n.toRat ∧ isInt64 i) ∧
    (∀ {text n v}, Json.IsNumber text n → ¬ (n.fraction? = none ∧ n.exponent? = none) →
      Json.parse? text = some v → ∃ x, v = .real x ∧ x.isFinite ∧
        ∀ i, readInteger? v = some i ↔ |x.value| < 2 ^ 63 ∧ i = truncated x.value) ∧
    (∀ {v x}, v.toDouble? = some x → x.isFinite → |x.value| < 2 ^ 63 →
      ∃ i, readInteger? v = some i) ∧
    (∀ {r : Record} {w name v}, r.get? name = some v → (∀ i, ¬ StandsFor v i) →
      r.readField w .integer readInteger? name =
        .error (.invalidField name r.line .integer v)) ∧
    ∀ {i : Int}, i.natAbs < 1 <<< 63 →
      Json.parse? (toString i).toList = some (.integer i) ∧ readInteger? (.integer i) = some i ∧
      (∀ {x : Binary64}, x.isFinite → x.value = i → readInteger? (.real x) = some i) ∧
      ∀ {before after}, (∀ c ∈ before, Text.isBlank c) → (∀ c ∈ after, Text.isBlank c) →
        readInteger? (.string (String.ofList (before ++ (toString i).toList ++ after))) =
          some i := by
  refine ⟨fun v i => readInteger?_eq_some_iff, fun h hfraction hexponent hv i =>
    readInteger?_literal h hfraction hexponent hv, exists_readInteger?_literal,
    exists_readInteger?_of_lt, readField_integer_eq_error, fun {i} hi => ?_⟩
  have hbits : (1 <<< 63 : Nat) = 9223372036854775808 := rfl
  have hint : isInt64 i := isInt64_iff.2 (by omega)
  refine ⟨Json.parse?_of_rereads (Json.rereads_integer hint), if_pos hint, fun {x} hx hvalue => ?_,
    fun hbefore hafter => readInteger?_padded hint hbefore hafter⟩
  have hwhole : truncated x.value = i := by rw [hvalue, truncated_intCast]
  have hlt : |x.value| < 2 ^ 63 := by
    rw [← natAbs_truncated_lt_iff hx, hwhole]
    exact hi
  rw [← hwhole]
  exact readInteger?_eq_some_iff.2 (.real hx hlt)

/-- The literal of the largest integer of 64 bits. -/
def largest : Numeral := ⟨false, "9223372036854775807".toList, none, none⟩

theorem isNumber_largest : Json.IsNumber "9223372036854775807".toList largest := by decide +kernel

/-- At the limit: the largest integer is read as it is and the next one is an error, while a half is
dropped from a double and white space from a string. -/
theorem readInteger?_exact_limit :
    readInteger? (.integer 9223372036854775807) = some 9223372036854775807 ∧
    Record.readField ⟨3, [("size", .integer 9223372036854775808)]⟩ .am .integer readInteger?
      "size" = .error (.invalidField "size" 3 .integer (.integer 9223372036854775808)) ∧
    (∃ i, readInteger? (.real (.ofRatio false 19 2)) = some i) ∧
    readInteger? (.string (String.ofList (['\t', ' '] ++ (toString (10 : Int)).toList ++ ['\n']))) =
      some 10 := by
  obtain ⟨-, hliteral, -, hdouble, herror, hforms⟩ := readInteger?_exact
  refine ⟨?_, herror rfl ?_, hdouble rfl (by decide +kernel) ?_, (hforms ?_).2.2.2 ?_ ?_⟩
  · have hparse : Json.parse? "9223372036854775807".toList =
        some (.integer 9223372036854775807) := by
      rw [isNumber_largest.parse?_eq]
      rfl
    refine (hliteral isNumber_largest rfl rfl hparse _).2 ⟨?_, by decide⟩
    rw [Numeral.toRat_whole rfl rfl, Int.cast_inj]
    decide +kernel
  · rintro i ⟨⟩
    rename_i hrange
    revert hrange
    decide
  · have hvalue := (value_ofRatio (n := 19) (k := 1) (by decide) (by decide)).2
    have hbase : (1 <<< 1 : Nat) = 2 := rfl
    rw [hbase] at hvalue
    rw [hvalue]
    norm_num
  · decide
  · exact List.all_eq_true.1 rfl
  · exact List.all_eq_true.1 rfl

end Field

end PerfGate
