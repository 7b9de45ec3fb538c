import Mathlib.Data.List.Forall2
import PerfGate.Proofs.Json.Scan

/-!
# Json — what is written is read back

The text of a value is read back as that value, with what follows it left over (`Rereads`). This is
put together from the parts of a value: strings come back character by character however they are
escaped (`readString_stringText`), integers as far as they fit 64 bits, and arrays and objects if
their items do. Doubles are not all read back as they were; what is said here holds for whatever they are
read as (`reread`).
-/

namespace PerfGate

namespace Json

/-! ## Strings -/

/-- How a character stands in the text of a string: control characters without a letter of their own
are written as units. -/
def piece (c : Char) : Piece :=
  if c < ' ' ∧ c ∉ ['\n', '\r', '\t', '\x08', '\x0c'] then .unit c.toNat else .char c

theorem readString_escape {e c : Char} (h : escapeChar? e = some c) (rest : List Char) :
    readString ('\\' :: e :: rest) =
      (readString rest).map fun (ps, rest') => (.char c :: ps, rest') := by
  have hu : e ≠ 'u' := by
    rintro rfl
    cases h
  rw [readString, h]
  · cases readString rest with
    | none => rfl
    | some read => rfl
  · intro _ _ _ _ _ he
    exact absurd he hu

theorem hexDigit?_digitChar : ∀ d < 16, hexDigit? (Nat.digitChar d) = some d := by decide

theorem readString_unit {n : Nat} (h : n < 32) (rest : List Char) :
    readString ('\\' :: 'u' :: '0' :: '0' :: Nat.digitChar (n / 16) :: Nat.digitChar (n % 16) ::
      rest) = (readString rest).map fun (ps, rest') => (.unit n :: ps, rest') := by
  have hunit : hexUnit? '0' '0' (Nat.digitChar (n / 16)) (Nat.digitChar (n % 16)) = some n := by
    have hzero : hexDigit? '0' = some 0 := by decide
    rw [hexUnit?, hzero, hexDigit?_digitChar _ (by omega), hexDigit?_digitChar _ (by omega)]
    show some (((0 * 16 + 0) * 16 + n / 16) * 16 + n % 16) = some n
    congr 1
    omega
  rw [readString, hunit]
  cases readString rest with
  | none => rfl
  | some read => rfl

theorem readString_plain {c : Char} (hquote : c ≠ '\"') (hbackslash : c ≠ '\\') (hspace : ¬ c < ' ')
    (rest : List Char) :
    readString (c :: rest) = (readString rest).map fun (ps, rest') => (.char c :: ps, rest') := by
  rw [readString, if_neg hspace]
  · exact fun h => hquote h
  · exact fun _ _ _ _ _ h => absurd h hbackslash
  · exact fun _ _ h => absurd h hbackslash

theorem piece_of_not_lt {c : Char} (h : ¬ c < ' ') : piece c = .char c := if_neg fun hc => h hc.1

theorem piece_of_mem {c : Char} (h : c ∈ ['\n', '\r', '\t', '\x08', '\x0c']) :
    piece c = .char c := if_neg fun hc => hc.2 h

/-- The text of a character is read as one piece. -/
theorem readString_escaped (c : Char) (rest : List Char) :
    readString (escaped c ++ rest) =
      (readString rest).map fun (ps, rest') => (piece c :: ps, rest') := by
  unfold escaped
  split_ifs with hquote hn hr ht hb hf hspace
  · have hpiece : piece c = .char c := by
      rcases hquote with rfl | rfl
      · exact piece_of_not_lt (by decide)
      · exact piece_of_not_lt (by decide)
    rw [hpiece]
    exact readString_escape (by rw [escapeChar?, if_pos (by tauto)]) rest
  · rw [hn, piece_of_mem (by decide)]
    exact readString_escape rfl rest
  · rw [hr, piece_of_mem (by decide)]
    exact readString_escape rfl rest
  · rw [ht, piece_of_mem (by decide)]
    exact readString_escape rfl rest
  · rw [hb, piece_of_mem (by decide)]
    exact readString_escape rfl rest
  · rw [hf, piece_of_mem (by decide)]
    exact readString_escape rfl rest
  · have hpiece : piece c = .unit c.toNat := if_pos ⟨hspace, by simp [hn, hr, ht, hb, hf]⟩
    rw [hpiece]
    exact readString_unit hspace rest
  · rw [not_or] at hquote
    rw [piece_of_not_lt hspace]
    exact readString_plain hquote.1 hquote.2 hspace rest

/-- **The text of a string is read as its characters**, with what follows the string left over. -/
theorem readString_stringText (cs rest : List Char) :
    readString (cs.flatMap escaped ++ '\"' :: rest) = some (cs.map piece, rest) := by
  induction cs with
  | nil => exact readString_quote rest
  | cons c cs ih =>
      rw [List.flatMap_cons, List.append_assoc, readString_escaped, ih]
      rfl

/-- No piece of a written string is a surrogate, so each stands for its character by itself. -/
theorem pieceChars?_map_piece (cs : List Char) : pieceChars? (cs.map piece) = some cs := by
  induction cs with
  | nil => rfl
  | cons c cs ih =>
      rw [List.map_cons, piece]
      split_ifs with hunit
      · have hlt : c.toNat < 32 := hunit.1
        have hhigh : Text.Utf16.isHigh c.toNat = false := by
          simp only [Text.Utf16.isHigh, Bool.and_eq_false_iff, decide_eq_false_iff_not]
          omega
        have hlow : Text.Utf16.isLow c.toNat = false := by
          simp only [Text.Utf16.isLow, Bool.and_eq_false_iff, decide_eq_false_iff_not]
          omega
        rw [pieceChars?_unit hhigh hlow, ih, Char.ofNat_toNat]
        rfl
      · rw [pieceChars?, ih]
        rfl

theorem pieceString?_map_piece (s : String) : pieceString? (s.toList.map piece) = some s := by
  rw [pieceString?, pieceChars?_map_piece, Option.map_some, String.ofList_toList]

/-! ## What follows a value -/

/-- What may follow a value: a comma, the end of the brackets around it, or nothing at all. -/
def Stops (rest : List Char) : Prop := ∀ c ∈ rest.head?, c = ',' ∨ c = ']' ∨ c = '}'

theorem stops_nil : Stops [] := by simp [Stops]

theorem stops_cons {c : Char} (h : c = ',' ∨ c = ']' ∨ c = '}') (rest : List Char) :
    Stops (c :: rest) := by
  simpa [Stops] using h

/-! ## Numbers -/

variable {digits rest : List Char}

theorem takeWhile_isDigit (hdigits : ∀ c ∈ digits, c.isDigit)
    (hrest : ∀ c ∈ rest.head?, c.isDigit = false) :
    (digits ++ rest).takeWhile Char.isDigit = digits := by
  rw [List.takeWhile_append_of_pos hdigits]
  cases rest with
  | nil => simp
  | cons c rest => simp [hrest c rfl]

theorem dropWhile_isDigit (hdigits : ∀ c ∈ digits, c.isDigit)
    (hrest : ∀ c ∈ rest.head?, c.isDigit = false) :
    (digits ++ rest).dropWhile Char.isDigit = rest := by
  rw [List.dropWhile_append_of_pos hdigits]
  cases rest with
  | nil => rfl
  | cons c rest => simp [hrest c rfl]

theorem readWholePart_append (hne : digits ≠ []) (hdigits : ∀ c ∈ digits, c.isDigit)
    (hzero : digits.head? = some '0' → digits = ['0'])
    (hrest : ∀ c ∈ rest.head?, c.isDigit = false) :
    readWholePart (digits ++ rest) = some (digits, rest) := by
  unfold readWholePart
  rw [takeWhile_isDigit hdigits hrest, dropWhile_isDigit hdigits hrest]
  dsimp only
  split
  · exact absurd rfl hne
  · -- a zero before other digits
    cases hzero rfl
  · rfl

theorem readFraction_append {fraction? : Option (List Char)} (hne : ∀ f ∈ fraction?, f ≠ [])
    (hdigits : ∀ f ∈ fraction?, ∀ c ∈ f, c.isDigit)
    (hrest : ∀ c ∈ rest.head?, c.isDigit = false ∧ c ≠ '.') :
    readFraction (Numeral.fractionText fraction? ++ rest) = some (fraction?, rest) := by
  cases fraction? with
  | none =>
      show readFraction rest = some (none, rest)
      unfold readFraction
      split
      · exact absurd rfl (hrest _ rfl).2
      · rfl
  | some f =>
      have hstop : ∀ c ∈ rest.head?, c.isDigit = false := fun c hc => (hrest c hc).1
      show readFraction ('.' :: (f ++ rest)) = some (some f, rest)
      unfold readFraction
      simp only [takeWhile_isDigit (hdigits f rfl) hstop, dropWhile_isDigit (hdigits f rfl) hstop,
        if_neg (hne f rfl)]

theorem Stops.not_digit (h : Stops rest) : ∀ c ∈ rest.head?, c.isDigit = false := by
  intro c hc
  rcases h c hc with rfl | rfl | rfl <;> rfl

theorem readExponent_append {exponent? : Option Int} (hrest : Stops rest) :
    readExponent (Numeral.exponentText exponent? ++ rest) = some (exponent?, rest) := by
  cases exponent? with
  | none =>
      cases rest with
      | nil => rfl
      | cons c rest =>
          have hletter : ¬ (c = 'e' ∨ c = 'E') := by
            rcases hrest c rfl with rfl | rfl | rfl <;> decide
          show readExponent (c :: rest) = some (none, c :: rest)
          rw [readExponent, if_neg hletter]
  | some e =>
      have hdigits : ∀ c ∈ Nat.toDigits 10 e.natAbs, c.isDigit := fun c => isDigit_of_mem_toDigits
      have hsplit : Numeral.splitSign ((if e < 0 then '-' else '+') :: Nat.toDigits 10 e.natAbs ++
          rest) = (decide (e < 0), Nat.toDigits 10 e.natAbs ++ rest) := by
        split_ifs with h <;> simp [Numeral.splitSign, h]
      show readExponent ('e' :: ((if e < 0 then '-' else '+') :: Nat.toDigits 10 e.natAbs ++ rest)) =
        some (some e, rest)
      rw [readExponent, if_pos (.inl rfl), hsplit]
      simp only [takeWhile_isDigit hdigits hrest.not_digit,
        dropWhile_isDigit hdigits hrest.not_digit, if_neg Nat.toDigits_ne_nil,
        Nat.ofDigitChars_toDigits (b := 10) (by decide) (by decide)]
      congr 3
      split_ifs with h <;> simp at h <;> omega

/-- **The text of a numeral is read as that numeral.** -/
theorem readNumber_spelled {n : Numeral} (h : n.WellFormed) (hrest : Stops rest) :
    readNumber (n.spelled ++ rest) = some (n, rest) := by
  obtain ⟨negative, whole, fraction?, exponent?⟩ := n
  have hexponent : ∀ c ∈ (Numeral.exponentText exponent? ++ rest).head?,
      c.isDigit = false ∧ c ≠ '.' := by
    cases exponent? with
    | none =>
        intro c hc
        rcases hrest c hc with rfl | rfl | rfl <;> decide
    | some e =>
        rintro c ⟨⟩
        decide
  have hfraction : ∀ c ∈ (Numeral.fractionText fraction? ++
      (Numeral.exponentText exponent? ++ rest)).head?, c.isDigit = false := by
    cases fraction? with
    | none => exact fun c hc => (hexponent c hc).1
    | some f =>
        rintro c ⟨⟩
        decide
  have hminus : readMinus (Numeral.spelled ⟨negative, whole, fraction?, exponent?⟩ ++ rest) =
      (negative, whole ++ (Numeral.fractionText fraction? ++
        (Numeral.exponentText exponent? ++ rest))) := by
    unfold Numeral.spelled
    cases negative with
    | true => simp [readMinus]
    | false =>
        obtain ⟨c, more, rfl⟩ := List.exists_cons_of_ne_nil h.whole_ne
        have hc : c ≠ '-' := by
          rintro rfl
          cases h.whole_digits '-' List.mem_cons_self
        simp only [Bool.false_eq_true, if_false, List.nil_append, List.append_assoc,
          List.cons_append]
        unfold readMinus
        split
        · rename_i heq
          exact absurd (List.cons.inj heq).1 hc
        · rfl
  unfold readNumber
  rw [hminus]
  simp only [readWholePart_append h.whole_ne h.whole_digits h.no_zero hfraction,
    readFraction_append h.fraction_ne h.fraction_digits hexponent, readExponent_append hrest,
    Option.bind_eq_bind, Option.bind_some, Option.pure_def]

/-! ## Brackets -/

/-- `read` takes a text for `x` wherever a value may stand. -/
def Reads {α : Type} (read : List Char → Option (α × List Char)) (text : List Char) (x : α) : Prop :=
  ∀ rest, Stops rest → read (text ++ rest) = some (x, rest)

/-- A text that white space does not begin, nor the end of brackets. -/
def Opens (text : List Char) : Prop :=
  ∃ c s, text = c :: s ∧ isSpace c = false ∧ c ≠ ']' ∧ c ≠ '}'

theorem skipSpace_cons {c : Char} (h : isSpace c = false) (s : List Char) :
    skipSpace (c :: s) = c :: s := by
  rw [skipSpace, List.dropWhile_cons, h]
  rfl

section Brackets

variable {α : Type} {read : List Char → Option (α × List Char)} {close : Char}
  {texts : List (List Char)} {xs : List α}

theorem isSpace_close (h : close = ']' ∨ close = '}') : isSpace close = false := by
  rcases h with rfl | rfl <;> rfl

theorem readSeries_joined (hclose : close = ']' ∨ close = '}')
    (h : List.Forall₂ (Reads read) texts xs) (hne : texts ≠ []) (bound : List Char)
    (hbound : texts.length ≤ bound.length) (rest : List Char) :
    readSeries read close bound (joined texts ++ close :: rest) = some (xs, rest) := by
  have hspace := isSpace_close hclose
  -- along the series; each thing read uses up one character of the bound
  induction h generalizing bound with
  | nil => exact absurd rfl hne
  | @cons text x texts xs hread hrest ih =>
      obtain ⟨b, bound, rfl⟩ : ∃ b bound', bound = b :: bound' := by
        cases bound with
        | nil => simp at hbound
        | cons b bound => exact ⟨b, bound, rfl⟩
      cases hrest with
      | nil =>
          rw [joined, readSeries, hread _ (stops_cons (.inr hclose) rest)]
          simp only [skipSpace_cons hspace, if_true]
      | @cons text' x' texts xs hread' hrest =>
          have hcomma : ¬ ',' = close := by
            rcases hclose with rfl | rfl <;> decide
          have hmore := ih (by simp) bound (by simp at hbound ⊢; omega)
          have hnext := hread (',' :: (joined (text' :: texts) ++ close :: rest))
            (stops_cons (.inl rfl) _)
          have hsplit : joined (text :: text' :: texts) ++ close :: rest =
              text ++ ',' :: (joined (text' :: texts) ++ close :: rest) := by
            rw [joined, List.append_assoc, List.cons_append]
            · simp
          rw [hsplit, readSeries, hnext]
          simp only [skipSpace_cons (show isSpace ',' = false from rfl), if_neg hcomma, if_true,
            hmore, Option.map_some]

theorem length_le_length_joined (h : ∀ text ∈ texts, Opens text) :
    texts.length ≤ (joined texts).length := by
  induction texts with
  | nil => simp
  | cons text texts ih =>
      have hrest := ih fun t ht => h t (List.mem_cons_of_mem _ ht)
      have hpos : 0 < text.length := by
        obtain ⟨c, s, rfl, -⟩ := h text List.mem_cons_self
        simp
      cases texts with
      | nil => exact hpos
      | cons text' texts =>
          rw [joined]
          · simp only [List.length_append, List.length_cons] at hrest ⊢
            omega
          · simp

/-- What stands between brackets, with commas between, is read one by one. -/
theorem readBracketed_joined (hclose : close = ']' ∨ close = '}')
    (h : List.Forall₂ (Reads read) texts xs) (hopens : ∀ text ∈ texts, Opens text)
    (rest : List Char) :
    readBracketed read close (joined texts ++ close :: rest) = some (xs, rest) := by
  cases texts with
  | nil =>
      cases h
      show readBracketed read close (close :: rest) = some ([], rest)
      rw [readBracketed, skipSpace_cons (isSpace_close hclose)]
      simp only [if_true]
  | cons text texts =>
      obtain ⟨c, s, hc, hspace, hbracket, hbrace⟩ : Opens (joined (text :: texts)) := by
        obtain ⟨c, s, rfl, hc⟩ := hopens text List.mem_cons_self
        cases texts with
        | nil => exact ⟨c, s, rfl, hc⟩
        | cons text' texts => exact ⟨c, _, rfl, hc⟩
      have hne : c ≠ close := by
        rcases hclose with rfl | rfl
        · exact hbracket
        · exact hbrace
      have hlength := length_le_length_joined hopens
      have hseries := readSeries_joined hclose h (by simp) (joined (text :: texts) ++ close :: rest)
        (by rw [List.length_append]; omega) rest
      rw [hc, List.cons_append] at hseries ⊢
      rw [readBracketed, skipSpace_cons hspace]
      simp only [if_neg hne, hseries]

end Brackets

/-! ## Values -/

/-- A value that is read back as `v'` from its text, by a reader that goes `depth` brackets deep and
whatever follows the text. -/
structure Rereads (depth : Nat) (v v' : Value) : Prop where
  opens : Opens v.text
  read : ∃ w : Written, w.value? = some v' ∧ Reads (readWritten depth) v.text w

section Values

variable {depth : Nat}

/-- Apart from brackets, the depth has no part in reading. -/
theorem readWritten_of_scalar {c : Char} (hspace : isSpace c = false) (hbracket : c ≠ '[')
    (hbrace : c ≠ '\x7b') (s : List Char) :
    readWritten depth (c :: s) = readScalar (c :: s) := by
  cases depth with
  | zero => rw [readWritten, skipSpace_cons hspace]
  | succ depth =>
      rw [readWritten, skipSpace_cons hspace]
      split
      · rename_i h
        exact absurd (List.cons.inj h).1 hbracket
      · rename_i h
        exact absurd (List.cons.inj h).1 hbrace
      · rfl

theorem rereads_null : Rereads depth .null .null where
  opens := ⟨'n', "ull".toList, rfl, by decide⟩
  read := ⟨.null, rfl, fun rest _ => readWritten_of_scalar rfl (by decide) (by decide) _⟩

theorem rereads_string (s : String) : Rereads depth (.string s) (.string s) where
  opens := ⟨'\"', _, rfl, by decide⟩
  read := by
    refine ⟨.string (s.toList.map piece), ?_, fun rest _ => ?_⟩
    · rw [Written.value?, pieceString?_map_piece]
      rfl
    · show readWritten depth ('\"' :: (s.toList.flatMap escaped ++ ['\"'] ++ rest)) = _
      rw [readWritten_of_scalar rfl (by decide) (by decide), List.append_assoc,
        List.singleton_append]
      show (readString _).map _ = _
      rw [readString_stringText]
      rfl

/-- A number starts with its sign or its first digit. -/
theorem readNumber_head {s rest : List Char} {n : Numeral} (h : readNumber s = some (n, rest)) :
    ∃ c t, s = c :: t ∧ (c = '-' ∨ c.isDigit) := by
  cases s with
  | nil => cases h
  | cons c t =>
      refine ⟨c, t, rfl, ?_⟩
      by_contra hc
      rw [not_or] at hc
      have hminus : readMinus (c :: t) = (false, c :: t) := by
        unfold readMinus
        split
        · rename_i heq
          exact absurd (List.cons.inj heq).1 hc.1
        · rfl
      have hwhole : readWholePart (c :: t) = none := by simp [readWholePart, hc.2]
      simp [readNumber, hminus, hwhole] at h

theorem ne_of_number_head {c : Char} (hc : c = '-' ∨ c.isDigit) {d : Char} (hminus : d ≠ '-')
    (hdigit : d.isDigit = false) : c ≠ d := by
  rintro rfl
  rcases hc with h | h
  · exact hminus h
  · rw [hdigit] at h
    cases h

theorem isSpace_number_head {c : Char} (hc : c = '-' ∨ c.isDigit) : isSpace c = false := by
  simp [isSpace, ne_of_number_head hc (show ' ' ≠ '-' by decide) (by decide),
    ne_of_number_head hc (show '\t' ≠ '-' by decide) (by decide),
    ne_of_number_head hc (show '\n' ≠ '-' by decide) (by decide),
    ne_of_number_head hc (show '\r' ≠ '-' by decide) (by decide)]

/-- Wherever a value may stand, a number is a value. -/
theorem readWritten_of_readNumber {s rest : List Char} {n : Numeral}
    (h : readNumber s = some (n, rest)) : readWritten depth s = some (.number n, rest) := by
  obtain ⟨c, t, rfl, hc⟩ := readNumber_head h
  have hne : ∀ {d : Char} {more : List Char}, d ≠ '-' → d.isDigit = false → c :: t ≠ d :: more :=
    fun hminus hdigit heq => ne_of_number_head hc hminus hdigit (List.cons.inj heq).1
  rw [readWritten_of_scalar (isSpace_number_head hc) (ne_of_number_head hc (by decide) (by decide))
    (ne_of_number_head hc (by decide) (by decide))]
  unfold readScalar
  split
  · rename_i heq
    exact absurd heq (hne (by decide) (by decide))
  · rename_i heq
    exact absurd heq (hne (by decide) (by decide))
  · rename_i heq
    exact absurd heq (hne (by decide) (by decide))
  · rename_i heq
    exact absurd heq (hne (by decide) (by decide))
  · rw [h]
    rfl

/-- A number is read back as the value of the numeral that it is written as. -/
theorem rereads_numeral {v v' : Value} {n : Numeral} (htext : v.text = n.spelled)
    (hn : n.WellFormed) (hv : numberValue? n = some v') : Rereads depth v v' := by
  refine ⟨?_, .number n, hv, fun rest hrest => ?_⟩
  · obtain ⟨c, t, hs, hc⟩ := readNumber_head (readNumber_spelled hn stops_nil)
    rw [List.append_nil] at hs
    rw [htext, hs]
    exact ⟨c, t, rfl, isSpace_number_head hc, ne_of_number_head hc (by decide) (by decide),
      ne_of_number_head hc (by decide) (by decide)⟩
  · rw [htext]
    exact readWritten_of_readNumber (readNumber_spelled hn hrest)

theorem rereads_array {items items' : List Value} (h : List.Forall₂ (Rereads depth) items items') :
    Rereads (depth + 1) (.array items) (.array items') where
  opens := ⟨'[', _, rfl, by decide⟩
  read := by
    obtain ⟨ws, hws, hreads, hopens⟩ : ∃ ws, Written.values? ws = some items' ∧
        List.Forall₂ (Reads (readWritten depth)) (Value.texts items) ws ∧
        ∀ text ∈ Value.texts items, Opens text := by
      induction h with
      | nil => exact ⟨[], rfl, .nil, by simp [Value.texts]⟩
      | @cons v v' items items' hv _ ih =>
          obtain ⟨w, hw, hread⟩ := hv.read
          obtain ⟨ws, hws, hreads, hopens⟩ := ih
          refine ⟨w :: ws, ?_, .cons hread hreads, List.forall_mem_cons.2 ⟨hv.opens, hopens⟩⟩
          rw [Written.values?, hw, hws]
    refine ⟨.array ws, ?_, fun rest _ => ?_⟩
    · rw [Written.value?, hws]
      rfl
    · show readWritten (depth + 1) ('[' :: (joined (Value.texts items) ++ [']'] ++ rest)) = _
      rw [readWritten, skipSpace_cons rfl, List.append_assoc, List.singleton_append]
      show (readBracketed _ ']' _).map _ = _
      rw [readBracketed_joined (.inl rfl) hreads hopens]
      rfl

theorem reads_member {v : Value} {w : Written} (name : String)
    (h : Reads (readWritten depth) v.text w) :
    Reads (readMember (readWritten depth)) (memberText name v.text) (name.toList.map piece, w) := by
  intro rest hrest
  have hsplit : memberText name v.text ++ rest =
      '\"' :: (name.toList.flatMap escaped ++ '\"' :: ':' :: (v.text ++ rest)) := by
    simp [memberText, stringText]
  rw [hsplit, readMember, skipSpace_cons rfl]
  simp only [readString_stringText, skipSpace_cons (show isSpace ':' = false from rfl), h rest hrest,
    Option.map_some]

theorem rereads_object {members members' : Members} (hnodup : (members'.map Prod.fst).Nodup)
    (h : List.Forall₂ (fun m m' => m.1 = m'.1 ∧ Rereads depth m.2 m'.2) members members') :
    Rereads (depth + 1) (.object members) (.object members') where
  opens := ⟨'\x7b', _, rfl, by decide⟩
  read := by
    obtain ⟨ws, hws, hreads, hopens⟩ : ∃ ws, Written.members? ws = some members' ∧
        List.Forall₂ (Reads (readMember (readWritten depth))) (Value.memberTexts members) ws ∧
        ∀ text ∈ Value.memberTexts members, Opens text := by
      clear hnodup
      induction h with
      | nil => exact ⟨[], rfl, .nil, by simp [Value.memberTexts]⟩
      | @cons m m' members members' hm _ ih =>
          obtain ⟨name, v⟩ := m
          obtain ⟨name', v'⟩ := m'
          obtain ⟨rfl, hv⟩ := hm
          obtain ⟨w, hw, hread⟩ := hv.read
          obtain ⟨ws, hws, hreads, hopens⟩ := ih
          refine ⟨(name.toList.map piece, w) :: ws, ?_, .cons (reads_member name hread) hreads,
            List.forall_mem_cons.2 ⟨⟨'\"', _, rfl, by decide⟩, hopens⟩⟩
          rw [Written.members?, pieceString?_map_piece, hw, hws]
    refine ⟨.object ws, ?_, fun rest _ => ?_⟩
    · rw [Written.value?, hws, Option.map_some, Members.ofList_of_nodup hnodup]
    · show readWritten (depth + 1)
        ('\x7b' :: (joined (Value.memberTexts members) ++ ['\x7d'] ++ rest)) = _
      rw [readWritten, skipSpace_cons rfl, List.append_assoc, List.singleton_append]
      show (readBracketed _ '\x7d' _).map _ = _
      rw [readBracketed_joined (.inr rfl) hreads hopens]
      rfl

end Values

/-- A value that is read back is the whole of its text. -/
theorem parse?_of_rereads {v v' : Value} (h : Rereads maxDepth v v') : parse? v.text = some v' := by
  obtain ⟨w, hw, hread⟩ := h.read
  have htext := hread [] stops_nil
  rw [List.append_nil] at htext
  rw [parse?, Written.read?, htext]
  exact hw

/-! ## Integers and doubles -/

/-- The numeral that an integer is written as. -/
def integerNumeral (i : Int) : Numeral := ⟨decide (i < 0), Nat.toDigits 10 i.natAbs, none, none⟩

theorem toString_eq_spelled (i : Int) : (toString i).toList = (integerNumeral i).spelled := by
  cases i with
  | ofNat n =>
      show (Nat.repr n).toList = _
      rw [Nat.repr_eq_ofList_toDigits, String.toList_ofList]
      simp [integerNumeral, Numeral.spelled, Numeral.fractionText, Numeral.exponentText]
  | negSucc n =>
      show ("-" ++ Nat.repr (n + 1)).toList = _
      rw [Nat.repr_eq_ofList_toDigits, String.toList_append, String.toList_ofList]
      simp [integerNumeral, Numeral.spelled, Numeral.fractionText, Numeral.exponentText]

theorem wellFormed_integerNumeral (i : Int) : (integerNumeral i).WellFormed where
  whole_ne := Nat.toDigits_ne_nil
  whole_digits := fun _ => isDigit_of_mem_toDigits
  no_zero := by
    intro h
    have hzero : i.natAbs = 0 := by
      by_contra hne
      exact head?_toDigits_ne_zero (Nat.pos_of_ne_zero hne) h
    show Nat.toDigits 10 i.natAbs = ['0']
    rw [hzero]
    rfl
  fraction_ne := by simp [integerNumeral]
  fraction_digits := by simp [integerNumeral]

/-- The integers of 64 bits are read back. -/
theorem rereads_integer {depth : Nat} {i : Int} (h : isInt64 i = true) :
    Rereads depth (.integer i) (.integer i) := by
  have hdigits : Nat.ofDigitChars 10 (Nat.toDigits 10 i.natAbs) 0 = i.natAbs :=
    Nat.ofDigitChars_toDigits (by decide) (by decide)
  have hread : (integerNumeral i).integer? = some i := by
    rw [isInt64, Bool.and_eq_true, decide_eq_true_eq, decide_eq_true_eq] at h
    have hmin : (1 <<< 63 : Nat) < 1 <<< 64 := by decide
    rw [Numeral.integer?, if_pos ⟨rfl, rfl⟩]
    simp only [integerNumeral, hdigits, decide_eq_true_eq]
    split_ifs with hnegative hrange hlt
    · congr 1
      omega
    · omega
    · congr 1
      omega
    · omega
  refine rereads_numeral (toString_eq_spelled i) (wellFormed_integerNumeral i) ?_
  rw [numberValue?, hread]

/-- What the text of a double is read as. -/
def reread (x : Binary64) : Value := (parse? (doubleText x)).getD .null

theorem reread_of_rereads {x : Binary64} {v : Value} (h : ∀ depth, Rereads depth (.real x) v) :
    reread x = v := by
  have hparse : parse? (doubleText x) = some v := parse?_of_rereads (h maxDepth)
  rw [reread, hparse]
  rfl

theorem rereads_not_finite {x : Binary64} (h : x.isFinite = false) (depth : Nat) :
    Rereads depth (.real x) .null := by
  have htext : (Value.real x).text = Value.null.text := by
    show doubleText x = _
    rw [doubleText, if_neg (by simp [h])]
    rfl
  have hnull : Rereads depth .null .null := rereads_null
  exact ⟨by rw [htext]; exact hnull.opens, by rw [htext]; exact hnull.read⟩

theorem rereads_finite {negative : Bool} {n : Nat} (hn : Binary64.Representable n) {y : Binary64}
    (hy : (doubleNumeral negative n).scan? = some y) (depth : Nat) :
    Rereads depth (.real (.finite negative n hn)) (.real y) := by
  refine rereads_numeral (doubleText_finite hn) wellFormed_doubleNumeral ?_
  rw [numberValue?, integer?_doubleNumeral]
  show ((doubleNumeral negative n).scan?).map Value.real = _
  rw [hy]
  rfl

/-- What JSON cannot write is read as `null`. -/
theorem reread_not_finite {x : Binary64} (h : x.isFinite = false) : reread x = .null :=
  reread_of_rereads (rereads_not_finite h)

theorem reread_zero (negative : Bool) : reread (.zero negative) = .real (.zero negative) :=
  reread_of_rereads (rereads_finite _ (scan?_extremes negative).1)

/-- A finite double is read as a finite double of its sign, at most seven shares larger unless it is
tiny. -/
theorem exists_reread_finite (negative : Bool) {n : Nat} (hn : Binary64.Representable n) :
    ∃ m hm, reread (.finite negative n hn) = .real (.finite negative m hm) ∧
      (Binary64.smallestNormal ≤ n → (m : ℚ) ≤ n * (1 + 7 * Binary64.roundoff)) := by
  obtain ⟨m, hm, hscan, hle⟩ := exists_scan?_doubleNumeral negative hn
  exact ⟨m, hm, reread_of_rereads (rereads_finite hn hscan), hle⟩

/-- **A double is read back from its text**, if not always as it was. -/
theorem rereads_real (depth : Nat) (x : Binary64) : Rereads depth (.real x) (reread x) := by
  by_cases hx : x.isFinite = true
  · cases x with
    | nan => cases hx
    | infinite s => cases hx
    | finite s n hn =>
        obtain ⟨m, hm, hscan, -⟩ := exists_scan?_doubleNumeral s hn
        rw [reread_of_rereads (rereads_finite hn hscan)]
        exact rereads_finite hn hscan depth
  · rw [Bool.not_eq_true] at hx
    rw [reread_not_finite hx]
    exact rereads_not_finite hx depth

end Json

end PerfGate
