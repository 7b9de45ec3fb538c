import Mathlib.Data.List.TakeWhile
import PerfGate.Proofs.Json.RoundTrip
import PerfGate.Proofs.Text.Blank

/-!
# Json — number literals

A number of a document is a numeral of the strict grammar, and what follows its digits is an
exponent (`IsNumber.exists_written`). Read as the text of a field, which may be written more freely,
it is the same numeral (`IsNumber.read?_eq`), and so is it with white space around it
(`IsNumber.trim_eq`).
-/

namespace PerfGate

namespace Numeral

/-! ## Whole numbers -/

/-- A whole number in digits, with or without a sign before them. -/
inductive SpellsWhole : List Char → Int → Prop where
  | unsigned {digits : List Char} (hne : digits ≠ []) (h : ∀ c ∈ digits, c.isDigit) :
      SpellsWhole digits (Nat.ofDigitChars 10 digits 0 : Nat)
  | plus {digits : List Char} (hne : digits ≠ []) (h : ∀ c ∈ digits, c.isDigit) :
      SpellsWhole ('+' :: digits) (Nat.ofDigitChars 10 digits 0 : Nat)
  | minus {digits : List Char} (hne : digits ≠ []) (h : ∀ c ∈ digits, c.isDigit) :
      SpellsWhole ('-' :: digits) (-(Nat.ofDigitChars 10 digits 0 : Nat))

theorem splitSign_of_isDigit {s : List Char} (h : ∀ c ∈ s.head?, c.isDigit) :
    splitSign s = (false, s) := by
  unfold splitSign
  split
  · cases h '+' rfl
  · cases h '-' rfl
  · rfl

/-- A text without a sign is the whole of its digits. -/
theorem splitSign_cases (s : List Char) :
    (∃ r, s = '+' :: r ∧ splitSign s = (false, r)) ∨
      (∃ r, s = '-' :: r ∧ splitSign s = (true, r)) ∨ splitSign s = (false, s) := by
  unfold splitSign
  split
  · exact .inl ⟨_, rfl, rfl⟩
  · exact .inr (.inl ⟨_, rfl, rfl⟩)
  · exact .inr (.inr rfl)

theorem head?_isDigit {digits : List Char} (h : ∀ c ∈ digits, c.isDigit) :
    ∀ c ∈ digits.head?, c.isDigit :=
  fun c hc => h c (List.mem_of_mem_head? hc)

theorem readWhole?_eq_some_iff {s : List Char} {i : Int} :
    readWhole? s = some i ↔ SpellsWhole s i := by
  constructor
  · intro h
    unfold readWhole? at h
    rcases splitSign_cases s with ⟨r, rfl, hr⟩ | ⟨r, rfl, hr⟩ | hr
    all_goals
      simp only [hr, List.all_eq_true, Bool.false_eq_true, if_false, if_true,
        Option.ite_none_right_eq_some, Option.some.injEq] at h
      obtain ⟨hdigits, rfl⟩ := h
    · exact .plus hdigits.1 hdigits.2
    · exact .minus hdigits.1 hdigits.2
    · exact .unsigned hdigits.1 hdigits.2
  · intro h
    unfold readWhole?
    cases h with
    | unsigned hne h =>
        rw [splitSign_of_isDigit (head?_isDigit h)]
        simp [hne, List.all_eq_true.2 h]
    | plus hne h => simp [splitSign, hne, List.all_eq_true.2 h]
    | minus hne h => simp [splitSign, hne, List.all_eq_true.2 h]

/-! ## The liberal form -/

/-- What may stand in a numeral. -/
def IsPart (c : Char) : Prop := c.isDigit ∨ c ∈ ['+', '-', '.', 'e', 'E']

theorem not_blank_of_isDigit {c : Char} (h : c.isDigit) : Text.isBlank c = false := by
  rw [Char.isDigit, Bool.and_eq_true, decide_eq_true_eq, decide_eq_true_eq] at h
  have hle : 48 ≤ c.toNat := h.1
  have hge : c.toNat ≤ 57 := h.2
  simp [Text.isBlank]
  omega

theorem IsPart.not_blank {c : Char} (h : IsPart c) : Text.isBlank c = false := by
  rcases h with hdigit | hmark
  · exact not_blank_of_isDigit hdigit
  · simp only [List.mem_cons, List.not_mem_nil, or_false] at hmark
    rcases hmark with rfl | rfl | rfl | rfl | rfl <;> rfl

theorem SpellsWhole.isPart {s : List Char} {i : Int} (h : SpellsWhole s i) : ∀ c ∈ s, IsPart c := by
  cases h with
  | unsigned _ h => exact fun c hc => .inl (h c hc)
  | plus _ h => exact List.forall_mem_cons.2 ⟨.inr (by simp), fun c hc => .inl (h c hc)⟩
  | minus _ h => exact List.forall_mem_cons.2 ⟨.inr (by simp), fun c hc => .inl (h c hc)⟩

/-- An exponent that is not left out starts with its letter. -/
theorem readExponent?_cons {c : Char} {s : List Char} {e? : Option Int}
    (h : readExponent? (c :: s) = some e?) :
    (c = 'e' ∨ c = 'E') ∧ ∃ e, SpellsWhole s e ∧ e? = some e := by
  simp only [readExponent?, Option.ite_none_right_eq_some, Option.map_eq_some_iff,
    readWhole?_eq_some_iff] at h
  obtain ⟨hletter, e, he, rfl⟩ := h
  exact ⟨hletter, e, he, rfl⟩

theorem isPart_exponent {s : List Char} {e? : Option Int} (h : readExponent? s = some e?) :
    ∀ c ∈ s, IsPart c := by
  cases s with
  | nil => simp
  | cons c s =>
      obtain ⟨hletter, e, he, -⟩ := readExponent?_cons h
      refine List.forall_mem_cons.2 ⟨.inr ?_, he.isPart⟩
      rcases hletter with rfl | rfl <;> simp

/-- A numeral with its exponent written in any way. -/
def written (n : Numeral) (exponent : List Char) : List Char :=
  (if n.negative then ['-'] else []) ++ (n.whole ++ (fractionText n.fraction? ++ exponent))

section Written

variable {n : Numeral} {exponent : List Char}

theorem isPart_written (hn : n.WellFormed) (he : readExponent? exponent = some n.exponent?) :
    ∀ c ∈ n.written exponent, IsPart c := by
  unfold written
  simp only [List.forall_mem_append]
  refine ⟨?_, fun c hc => .inl (hn.whole_digits c hc), ?_, isPart_exponent he⟩
  · split <;> simp [IsPart]
  · cases hf : n.fraction? with
    | none => simp [fractionText]
    | some f =>
        exact List.forall_mem_cons.2 ⟨.inr (by simp), fun c hc => .inl (hn.fraction_digits f hf c hc)⟩

theorem splitSign_written (hn : n.WellFormed) :
    splitSign (n.written exponent) =
      (n.negative, n.whole ++ (fractionText n.fraction? ++ exponent)) := by
  unfold written
  cases n.negative with
  | true => rfl
  | false =>
      apply splitSign_of_isDigit
      intro c hc
      rw [if_neg (by simp), List.nil_append, List.head?_append_of_ne_nil _ hn.whole_ne] at hc
      exact head?_isDigit hn.whole_digits c hc

/-- No digit stands at the start of an exponent. -/
theorem exponent_not_digit {e? : Option Int} (he : readExponent? exponent = some e?) :
    ∀ c ∈ exponent.head?, c.isDigit = false ∧ c ≠ '.' := by
  cases exponent with
  | nil => simp
  | cons c s =>
      rintro c ⟨⟩
      rcases (readExponent?_cons he).1 with rfl | rfl <;> decide

/-- **Whatever is written in the strict form is read in the liberal one.** -/
theorem read?_written (hn : n.WellFormed) (he : readExponent? exponent = some n.exponent?) :
    read? (n.written exponent) = some n := by
  have hstop := exponent_not_digit he
  unfold read?
  rw [splitSign_written hn]
  cases hf : n.fraction? with
  | none =>
      have hrest : ∀ c ∈ exponent.head?, c.isDigit = false := fun c hc => (hstop c hc).1
      simp only [fractionText, List.nil_append, Json.takeWhile_isDigit hn.whole_digits hrest,
        Json.dropWhile_isDigit hn.whole_digits hrest]
      split
      · exact absurd rfl (hstop '.' rfl).2
      · simp only [hn.whole_ne, false_and, if_false, he, ← hf, Option.map_some]
  | some f =>
      have hrest : ∀ c ∈ exponent.head?, c.isDigit = false := fun c hc => (hstop c hc).1
      have hpoint : ∀ c ∈ ('.' :: (f ++ exponent)).head?, c.isDigit = false := by
        rintro c ⟨⟩
        rfl
      have hdigits := hn.fraction_digits f hf
      simp only [fractionText, List.cons_append, Json.takeWhile_isDigit hn.whole_digits hpoint,
        Json.dropWhile_isDigit hn.whole_digits hpoint, Json.takeWhile_isDigit hdigits hrest,
        Json.dropWhile_isDigit hdigits hrest]
      simp only [hn.whole_ne, false_and, if_false, he, ← hf, Option.map_some]

end Written

/-! ## Values -/

/-- The number that a numeral stands for. -/
def toRat (n : Numeral) : ℚ := if n.negative then -n.magnitude.toRat else n.magnitude.toRat

end Numeral

namespace Json

open Numeral

/-- A text that is a number of a document, and the numeral that it is. -/
def IsNumber (text : List Char) (n : Numeral) : Prop := readNumber text = some (n, [])

instance (text : List Char) (n : Numeral) : Decidable (IsNumber text n) :=
  inferInstanceAs (Decidable (_ = _))

section Parts

variable {s rest : List Char}

theorem readWholePart_eq_some {whole : List Char} (h : readWholePart s = some (whole, rest)) :
    s = whole ++ rest ∧ whole ≠ [] ∧ (∀ c ∈ whole, c.isDigit) ∧
      (whole.head? = some '0' → whole = ['0']) := by
  have hdigits : ∀ c ∈ s.takeWhile Char.isDigit, c.isDigit := fun c hc => List.mem_takeWhile_imp hc
  have hsplit : s = s.takeWhile Char.isDigit ++ s.dropWhile Char.isDigit :=
    List.takeWhile_append_dropWhile.symm
  unfold readWholePart at h
  simp only at h
  generalize s.takeWhile Char.isDigit = digits at hdigits hsplit h
  split at h
  · cases h
  · cases h
  · rename_i hne hzero
    cases h
    refine ⟨hsplit, hne, hdigits, fun hhead => ?_⟩
    cases whole with
    | nil => cases hhead
    | cons c more =>
        cases hhead
        cases more with
        | nil => rfl
        | cons d more => exact absurd rfl (hzero d more)

theorem readFraction_eq_some {fraction? : Option (List Char)}
    (h : readFraction s = some (fraction?, rest)) :
    s = fractionText fraction? ++ rest ∧ ∀ f ∈ fraction?, f ≠ [] ∧ ∀ c ∈ f, c.isDigit := by
  unfold readFraction at h
  split at h
  · rename_i t
    simp only at h
    split_ifs at h with hne
    cases h
    refine ⟨by simp [fractionText], ?_⟩
    rintro f ⟨⟩
    exact ⟨hne, fun c hc => List.mem_takeWhile_imp hc⟩
  · cases h
    exact ⟨rfl, by simp⟩

theorem readExponent_eq_some {exponent? : Option Int} (h : readExponent s = some (exponent?, [])) :
    Numeral.readExponent? s = some exponent? := by
  cases s with
  | nil => exact congrArg (Option.map Prod.fst) h
  | cons c s =>
      rw [readExponent] at h
      split_ifs at h with hletter
      · -- nothing follows the digits, so all that follows the sign are digits
        simp only [Option.ite_none_left_eq_some, Option.some.injEq, Prod.mk.injEq,
          List.dropWhile_eq_nil_iff] at h
        obtain ⟨hne, rfl, hdigits⟩ := h
        have hall : (splitSign s).2.takeWhile Char.isDigit = (splitSign s).2 :=
          List.takeWhile_eq_self_iff.2 hdigits
        rw [hall] at hne ⊢
        simp only [Numeral.readExponent?, hletter, if_true, readWhole?, List.all_eq_true.2 hdigits,
          hne, ne_eq, not_false_eq_true, and_self, Option.map_some]
      · cases h

end Parts

namespace IsNumber

variable {text : List Char} {n : Numeral}

/-- **A number literal is a numeral of the strict grammar**, with its exponent written in any way. -/
theorem exists_written (h : IsNumber text n) :
    n.WellFormed ∧ ∃ exponent, Numeral.readExponent? exponent = some n.exponent? ∧
      text = n.written exponent := by
  simp only [IsNumber, readNumber, Option.bind_eq_bind, Option.bind_eq_some_iff, Option.pure_def,
    Option.some.injEq, Prod.exists, Prod.mk.injEq] at h
  obtain ⟨whole, s, hwhole, fraction?, t, hfraction, exponent?, u, hexponent, rfl, rfl⟩ := h
  obtain ⟨hs, hne, hdigits, hzero⟩ := readWholePart_eq_some hwhole
  obtain ⟨rfl, hf⟩ := readFraction_eq_some hfraction
  refine ⟨⟨hne, hdigits, hzero, fun f h => (hf f h).1, fun f h => (hf f h).2⟩, t,
    readExponent_eq_some hexponent, ?_⟩
  have hminus : text = (if (readMinus text).1 then ['-'] else []) ++ (readMinus text).2 := by
    unfold readMinus
    split <;> rfl
  rw [written, ← hs]
  exact hminus

/-- A literal is read as the same numeral where the liberal form is allowed. -/
theorem read?_eq (h : IsNumber text n) : Numeral.read? text = some n := by
  obtain ⟨hn, exponent, he, rfl⟩ := h.exists_written
  exact read?_written hn he

/-- White space around a literal is all that trimming takes. -/
theorem trim_eq (h : IsNumber text n) {before after : List Char}
    (hbefore : ∀ c ∈ before, Text.isBlank c) (hafter : ∀ c ∈ after, Text.isBlank c) :
    Text.trim (before ++ text ++ after) = text := by
  obtain ⟨hn, exponent, he, rfl⟩ := h.exists_written
  rw [Text.trim_append hbefore hafter]
  exact Text.trim_of_not_blank fun c hc => (isPart_written hn he c hc).not_blank

/-- A literal by itself is a document. -/
theorem parse?_eq (h : IsNumber text n) : parse? text = numberValue? n := by
  rw [parse?, Written.read?, readWritten_of_readNumber h]
  rfl

end IsNumber

/-- An integer is written as a literal. -/
theorem isNumber_integerNumeral (i : Int) : IsNumber (toString i).toList (integerNumeral i) := by
  have h := readNumber_spelled (wellFormed_integerNumeral i) stops_nil
  rwa [List.append_nil, ← toString_eq_spelled] at h

end Json

end PerfGate
