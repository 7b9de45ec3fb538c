import PerfGate.Text.Encoding

/-!
# Text — what is encoded is decoded

A text that is stored in one of the encodings, with its mark or as plain UTF-8, is read back as it
was (`decode_stored`). A plain text must not start with the character of the mark, which would be
taken for the mark.
-/

namespace PerfGate.Text

/-! ## UTF-16 -/

namespace Utf16

/-- The codes of characters leave out the surrogates. -/
theorem toNat_valid (c : Char) : c.toNat < 0xd800 ∨ 0xdfff < c.toNat ∧ c.toNat < 0x110000 := c.valid

theorem isHigh_iff {u : Nat} : isHigh u ↔ 0xd800 ≤ u ∧ u < 0xdc00 := by
  simp only [isHigh, Bool.and_eq_true, decide_eq_true_eq]

theorem isLow_iff {u : Nat} : isLow u ↔ 0xdc00 ≤ u ∧ u < 0xe000 := by
  simp only [isLow, Bool.and_eq_true, decide_eq_true_eq]

theorem decode?_single {u : Nat} (hhigh : ¬ isHigh u) (hlow : ¬ isLow u) (rest : List Nat) :
    decode? (u :: rest) = (decode? rest).map (Char.ofNat u :: ·) := by
  cases rest with
  | nil => simp only [decode?, hhigh, hlow, Bool.false_eq_true, if_false]
  | cons v rest => rw [decode?, if_neg hhigh, if_neg hlow]

theorem decode?_pair {u v : Nat} (hhigh : isHigh u) (hlow : isLow v) (rest : List Nat) :
    decode? (u :: v :: rest) = (decode? rest).map (pair u v :: ·) := by
  rw [decode?, if_pos hhigh, if_pos hlow]

/-- A character is one unit that is no surrogate, or a pair with ten bits of it in each half. -/
theorem units_cases (c : Char) :
    (∃ u, units c = [u] ∧ u < 0x10000 ∧ ¬ isHigh u ∧ ¬ isLow u ∧ Char.ofNat u = c) ∨
      ∃ high low, units c = [high, low] ∧ isHigh high ∧ isLow low ∧ pair high low = c := by
  have hc := toNat_valid c
  simp only [isHigh_iff, isLow_iff]
  rcases Nat.lt_or_ge c.toNat 0x10000 with hlt | hge
  · refine .inl ⟨c.toNat, ?_, hlt, ?_, ?_, Char.ofNat_toNat c⟩
    · rw [units, if_pos hlt]
    · omega
    · omega
  · have hcode : 0x10000 + (0xd800 + (c.toNat - 0x10000) / 0x400 - 0xd800) * 0x400 +
        (0xdc00 + (c.toNat - 0x10000) % 0x400 - 0xdc00) = c.toNat := by omega
    refine .inr ⟨0xd800 + (c.toNat - 0x10000) / 0x400, 0xdc00 + (c.toNat - 0x10000) % 0x400,
      ?_, ?_, ?_, ?_⟩
    · rw [units, if_neg (Nat.not_lt.2 hge)]
    · omega
    · omega
    · rw [pair, hcode, Char.ofNat_toNat]

theorem units_lt (c : Char) : ∀ u ∈ units c, u < 0x10000 := by
  intro u hu
  rcases units_cases c with ⟨v, hunits, hlt, -⟩ | ⟨high, low, hunits, hhigh, hlow, -⟩
  · rw [hunits, List.mem_singleton] at hu
    rwa [hu]
  · rw [isHigh_iff] at hhigh
    rw [isLow_iff] at hlow
    simp only [hunits, List.mem_cons, List.not_mem_nil, or_false] at hu
    omega

/-- The units of a character are decoded to that character. -/
theorem decode?_units_append (c : Char) (rest : List Nat) :
    decode? (units c ++ rest) = (decode? rest).map (c :: ·) := by
  rcases units_cases c with ⟨u, hunits, -, hhigh, hlow, hu⟩ | ⟨high, low, hunits, hhigh, hlow, hpair⟩
  · rw [hunits, List.singleton_append, decode?_single hhigh hlow, hu]
  · rw [hunits, List.cons_append, List.singleton_append, decode?_pair hhigh hlow, hpair]

theorem decode?_encode (s : List Char) : decode? (encode s) = some s := by
  induction s with
  | nil => rfl
  | cons c rest ih =>
      unfold encode at ih ⊢
      rw [List.flatMap_cons, decode?_units_append, ih]
      rfl

end Utf16

/-! ## Bytes -/

namespace Encoding

theorem pairUnits?_flatMap (join : UInt8 → UInt8 → Nat) (split : Nat → List UInt8)
    (h : ∀ u < 0x10000, ∃ a b, split u = [a, b] ∧ join a b = u) {us : List Nat}
    (hus : ∀ u ∈ us, u < 0x10000) : pairUnits? join (us.flatMap split) = some us := by
  induction us with
  | nil => rfl
  | cons u rest ih =>
      rw [List.forall_mem_cons] at hus
      obtain ⟨a, b, hsplit, hjoin⟩ := h u hus.1
      rw [List.flatMap_cons, hsplit, List.cons_append, List.singleton_append, pairUnits?, ih hus.2,
        hjoin]
      rfl

theorem unit_unitBytes {u : Nat} (h : u < 0x10000) :
    unit (UInt8.ofNat (u / 256)) (UInt8.ofNat (u % 256)) = u := by
  unfold unit
  rw [UInt8.toNat_ofNat', UInt8.toNat_ofNat']
  omega

theorem encode_lt (text : String) : ∀ u ∈ Utf16.encode text.toList, u < 0x10000 := by
  intro u hu
  obtain ⟨c, _, hc⟩ := List.mem_flatMap.1 hu
  exact Utf16.units_lt c u hc

theorem utf8_bytes (text : String) :
    encode .utf8 text = text.toList.flatMap String.utf8EncodeChar := by
  show text.toByteArray.data.toList = _
  rw [← String.utf8Encode_toList, List.utf8Encode, List.toList_data_toByteArray]

/-- Decoding undoes encoding, in all encodings. -/
theorem decode?_encode (e : Encoding) (text : String) : e.decode? (e.encode text) = some text := by
  cases e with
  | utf8 =>
      have hbytes : List.toByteArray (encode .utf8 text) = text.toByteArray := by
        rw [utf8_bytes, ← String.utf8Encode_toList, List.utf8Encode]
      have hvalid := text.isValidUTF8
      show String.fromUTF8? (List.toByteArray (encode .utf8 text)) = some text
      rw [hbytes, String.fromUTF8?, dif_pos hvalid]
      rfl
  | utf16le =>
      have hunits := pairUnits?_flatMap (fun a b => unit b a)
        (fun u => (unitBytes u).reverse) (fun u hu => ⟨_, _, rfl, unit_unitBytes hu⟩)
        (encode_lt text)
      simp only [decode?, encode, hunits, Option.bind_some, Utf16.decode?_encode, Option.map_some,
        String.ofList_toList]
  | utf16be =>
      have hunits := pairUnits?_flatMap unit unitBytes
        (fun u hu => ⟨_, _, rfl, unit_unitBytes hu⟩) (encode_lt text)
      simp only [decode?, encode, hunits, Option.bind_some, Utf16.decode?_encode, Option.map_some,
        String.ofList_toList]

/-! ## Marks -/

theorem detect_mark_append (e : Encoding) (bytes : List UInt8) :
    detect (e.mark ++ bytes) = (e, e.mark.length) := by
  cases e <;> rfl

/-- No character starts with a byte of a mark of UTF-16. -/
theorem head_utf8EncodeChar {c : Char} {bytes rest : List UInt8} {b : UInt8}
    (h : String.utf8EncodeChar c ++ bytes = b :: rest) : b ≠ 0xff ∧ b ≠ 0xfe := by
  have hfirst : b.IsUTF8FirstByte := by
    have hzero := UInt8.isUTF8FirstByte_getElem_zero_utf8EncodeChar (c := c)
    cases hchar : String.utf8EncodeChar c with
    | nil => exact absurd hchar String.utf8EncodeChar_ne_nil
    | cons b' tail =>
        rw [hchar, List.cons_append] at h
        simp only [hchar, List.getElem_cons_zero, (List.cons.inj h).1] at hzero
        exact hzero
  constructor
  · rintro rfl
    exact absurd hfirst (by decide)
  · rintro rfl
    exact absurd hfirst (by decide)

/-- The mark of UTF-8 is a character itself, and no other character has its bytes. -/
theorem eq_of_utf8EncodeChar_eq_mark {c : Char} {bytes rest : List UInt8}
    (h : String.utf8EncodeChar c ++ bytes = 0xef :: 0xbb :: 0xbf :: rest) : c = '\ufeff' := by
  -- the first character of these bytes is both
  have hmark : String.utf8EncodeChar c ++ bytes = String.utf8EncodeChar '\ufeff' ++ rest := h
  have hdecode := ByteArray.utf8DecodeChar?_utf8EncodeChar_append (b := List.toByteArray bytes)
    (c := c)
  rw [← List.toByteArray_append, hmark, List.toByteArray_append,
    ByteArray.utf8DecodeChar?_utf8EncodeChar_append] at hdecode
  exact (Option.some.inj hdecode).symm

/-- A plain text starts like none of the marks. -/
theorem detect_plain {text : String} (h : text.toList.head? ≠ some '\ufeff') :
    detect (encode .utf8 text) = (.utf8, 0) := by
  rw [utf8_bytes]
  cases hchars : text.toList with
  | nil => rfl
  | cons c rest =>
      rw [hchars] at h
      rw [List.flatMap_cons]
      unfold detect
      split
      · rename_i heq
        exact absurd rfl (head_utf8EncodeChar heq).1
      · rename_i heq
        exact absurd rfl (head_utf8EncodeChar heq).2
      · rename_i heq
        exact absurd (congrArg some (eq_of_utf8EncodeChar_eq_mark heq)) h
      · rfl

end Encoding

/-! ## Stored texts -/

/-- The bytes that a text may be stored as: in any encoding behind its mark, or as plain UTF-8. -/
inductive Stored (text : String) : List UInt8 → Prop where
  | marked (e : Encoding) : Stored text (e.mark ++ e.encode text)
  | plain (h : text.toList.head? ≠ some '\ufeff') : Stored text (Encoding.utf8.encode text)

/-- **Whatever a text is stored as, it is read back.** -/
theorem decode_stored {text : String} {bytes : List UInt8} (h : Stored text bytes) :
    decode bytes = .ok text := by
  unfold decode
  cases h with
  | marked e =>
      rw [Encoding.detect_mark_append]
      simp only [List.drop_left, Encoding.decode?_encode]
  | plain h =>
      rw [Encoding.detect_plain h]
      simp only [List.drop_zero, Encoding.decode?_encode]

end PerfGate.Text
