import PerfGate.Proofs.Text.Encoding

/-!
# Text — well-formed bytes

Which bytes are the encoding of some text, said without the text (`wellFormed_iff`): UTF-8 with
sequences that are complete, as short as possible and no surrogates, and UTF-16 with whole units in
which each surrogate is half of a pair.
-/

namespace PerfGate.Text

theorem toNat_ofNat {n : Nat} (h : n.isValidChar) : (Char.ofNat n).toNat = n := by
  rw [Char.ofNat, dif_pos h]
  rfl

/-! ## UTF-16 -/

namespace Utf16

/-- Units in which each surrogate is half of a pair, the high one first. -/
inductive Paired : List Nat → Prop where
  | nil : Paired []
  | single {u : Nat} {us : List Nat} : u < 0x10000 → ¬ isHigh u → ¬ isLow u → Paired us →
      Paired (u :: us)
  | pair {high low : Nat} {us : List Nat} : isHigh high → isLow low → Paired us →
      Paired (high :: low :: us)

theorem units_single {u : Nat} (hlt : u < 0x10000) (hhigh : ¬ isHigh u) (hlow : ¬ isLow u) :
    units (Char.ofNat u) = [u] := by
  rw [isHigh_iff] at hhigh
  rw [isLow_iff] at hlow
  have hvalid : u.isValidChar := by
    unfold Nat.isValidChar
    omega
  rw [units, toNat_ofNat hvalid, if_pos hlt]

theorem units_pair {high low : Nat} (hhigh : isHigh high) (hlow : isLow low) :
    units (pair high low) = [high, low] := by
  rw [isHigh_iff] at hhigh
  rw [isLow_iff] at hlow
  have hvalid : (0x10000 + (high - 0xd800) * 0x400 + (low - 0xdc00)).isValidChar := by
    unfold Nat.isValidChar
    omega
  rw [pair, units, toNat_ofNat hvalid, if_neg (by omega), List.cons.injEq, List.cons.injEq]
  exact ⟨by omega, by omega, rfl⟩

theorem paired_units_append (c : Char) {us : List Nat} (h : Paired us) : Paired (units c ++ us) := by
  rcases units_cases c with ⟨u, hunits, hlt, hhigh, hlow, -⟩ | ⟨high, low, hunits, hhigh, hlow, -⟩
  · rw [hunits]
    exact .single hlt hhigh hlow h
  · rw [hunits]
    exact .pair hhigh hlow h

theorem encode_cons (c : Char) (s : List Char) : encode (c :: s) = units c ++ encode s :=
  List.flatMap_cons

/-- The units of texts are those with paired surrogates. -/
theorem paired_iff {us : List Nat} : Paired us ↔ ∃ s, us = encode s := by
  constructor
  · intro h
    induction h with
    | nil => exact ⟨[], rfl⟩
    | @single u _ hlt hhigh hlow _ ih =>
        obtain ⟨s, rfl⟩ := ih
        refine ⟨Char.ofNat u :: s, ?_⟩
        rw [encode_cons, units_single hlt hhigh hlow, List.singleton_append]
    | @pair high low _ hhigh hlow _ ih =>
        obtain ⟨s, rfl⟩ := ih
        refine ⟨pair high low :: s, ?_⟩
        rw [encode_cons, units_pair hhigh hlow, List.cons_append, List.singleton_append]
  · rintro ⟨s, rfl⟩
    induction s with
    | nil => exact .nil
    | cons c rest ih =>
        rw [encode_cons]
        exact paired_units_append c ih

end Utf16

/-! ## UTF-8 -/

namespace Utf8

/-- A byte that goes on with a character. -/
def IsTail (b : UInt8) : Prop := 0x80 ≤ b.toNat ∧ b.toNat < 0xc0

/-- The bytes of one character. The conditions on the second byte exclude a sequence that a shorter
one stands for, a surrogate, and a code behind the last one. -/
inductive Sequence : List UInt8 → Prop where
  | one {a : UInt8} : a.toNat < 0x80 → Sequence [a]
  | two {a b : UInt8} : 0xc2 ≤ a.toNat → a.toNat < 0xe0 → IsTail b → Sequence [a, b]
  | three {a b c : UInt8} : 0xe0 ≤ a.toNat → a.toNat < 0xf0 → IsTail b → IsTail c →
      (a.toNat = 0xe0 → 0xa0 ≤ b.toNat) → (a.toNat = 0xed → b.toNat < 0xa0) → Sequence [a, b, c]
  | four {a b c d : UInt8} : 0xf0 ≤ a.toNat → a.toNat < 0xf5 → IsTail b → IsTail c → IsTail d →
      (a.toNat = 0xf0 → 0x90 ≤ b.toNat) → (a.toNat = 0xf4 → b.toNat < 0x90) →
      Sequence [a, b, c, d]

/-- Sequences one after another. -/
inductive Sequences : List UInt8 → Prop where
  | nil : Sequences []
  | cons {first rest : List UInt8} : Sequence first → Sequences rest → Sequences (first ++ rest)

theorem sequence_utf8EncodeChar (c : Char) : Sequence (String.utf8EncodeChar c) := by
  have hc := Utf16.toNat_valid c
  have hcode : c.val.toNat = c.toNat := rfl
  unfold String.utf8EncodeChar
  simp only [hcode]
  split
  · apply Sequence.one
    rw [UInt8.toNat_ofNat']
    omega
  split
  · apply Sequence.two <;> simp only [IsTail, UInt8.toNat_ofNat'] <;> omega
  split
  · apply Sequence.three <;> simp only [IsTail, UInt8.toNat_ofNat'] <;> omega
  · apply Sequence.four <;> simp only [IsTail, UInt8.toNat_ofNat'] <;> omega

/-- A sequence is that of the character with the code in it. -/
theorem exists_of_sequence {bytes : List UInt8} (h : Sequence bytes) :
    ∃ c, bytes = String.utf8EncodeChar c := by
  -- what is left to show of a code are its size and its digits
  have hencode : ∀ n : Nat, n.isValidChar → (Char.ofNat n).val.toNat = n := fun n => toNat_ofNat
  have hbyte : ∀ (a : UInt8) (n : Nat), n = a.toNat → UInt8.ofNat n = a := fun a n hn => by
    rw [hn, UInt8.ofNat_toNat]
  cases h with
  | @one a ha =>
      refine ⟨Char.ofNat a.toNat, ?_⟩
      rw [String.utf8EncodeChar, hencode _ (.inl (by omega)), if_pos (by omega),
        UInt8.ofNat_toNat]
  | @two a b ha ha' hb =>
      unfold IsTail at hb
      refine ⟨Char.ofNat ((a.toNat - 0xc0) * 64 + (b.toNat - 0x80)), ?_⟩
      rw [String.utf8EncodeChar, hencode _ (.inl (by omega)), if_neg (by omega), if_pos (by omega),
        hbyte a _ (by omega), hbyte b _ (by omega)]
  | @three a b c ha ha' hb hc hshort hsurrogate =>
      unfold IsTail at hb hc
      refine ⟨Char.ofNat ((a.toNat - 0xe0) * 4096 + (b.toNat - 0x80) * 64 + (c.toNat - 0x80)), ?_⟩
      have hvalid : ((a.toNat - 0xe0) * 4096 + (b.toNat - 0x80) * 64 +
          (c.toNat - 0x80)).isValidChar := by
        unfold Nat.isValidChar
        omega
      rw [String.utf8EncodeChar, hencode _ hvalid, if_neg (by omega), if_neg (by omega),
        if_pos (by omega), hbyte a _ (by omega), hbyte b _ (by omega), hbyte c _ (by omega)]
  | @four a b c d ha ha' hb hc hd hshort hlast =>
      unfold IsTail at hb hc hd
      refine ⟨Char.ofNat ((a.toNat - 0xf0) * 262144 + (b.toNat - 0x80) * 4096 +
        (c.toNat - 0x80) * 64 + (d.toNat - 0x80)), ?_⟩
      have hvalid : ((a.toNat - 0xf0) * 262144 + (b.toNat - 0x80) * 4096 +
          (c.toNat - 0x80) * 64 + (d.toNat - 0x80)).isValidChar := by
        unfold Nat.isValidChar
        omega
      rw [String.utf8EncodeChar, hencode _ hvalid, if_neg (by omega), if_neg (by omega),
        if_neg (by omega), hbyte a _ (by omega), hbyte b _ (by omega), hbyte c _ (by omega),
        hbyte d _ (by omega)]

theorem sequences_iff {bytes : List UInt8} :
    Sequences bytes ↔ ∃ s : List Char, bytes = s.flatMap String.utf8EncodeChar := by
  constructor
  · intro h
    induction h with
    | nil => exact ⟨[], rfl⟩
    | cons hfirst _ ih =>
        obtain ⟨c, rfl⟩ := exists_of_sequence hfirst
        obtain ⟨s, rfl⟩ := ih
        exact ⟨c :: s, List.flatMap_cons.symm⟩
  · rintro ⟨s, rfl⟩
    induction s with
    | nil => exact .nil
    | cons c rest ih =>
        rw [List.flatMap_cons]
        exact .cons (sequence_utf8EncodeChar c) ih

end Utf8

/-! ## All encodings -/

namespace Encoding

/-- Bytes without mark that an encoding can have written. -/
def WellFormed : Encoding → List UInt8 → Prop
  | .utf8, body => Utf8.Sequences body
  | .utf16le, body => ∃ us, Utf16.Paired us ∧ body = us.flatMap fun u => (unitBytes u).reverse
  | .utf16be, body => ∃ us, Utf16.Paired us ∧ body = us.flatMap unitBytes

theorem exists_paired_iff {split : Nat → List UInt8} {body : List UInt8} :
    (∃ us, Utf16.Paired us ∧ body = us.flatMap split) ↔
      ∃ text : String, body = (Utf16.encode text.toList).flatMap split := by
  constructor
  · rintro ⟨us, hpaired, rfl⟩
    obtain ⟨s, rfl⟩ := Utf16.paired_iff.1 hpaired
    exact ⟨String.ofList s, by rw [String.toList_ofList]⟩
  · rintro ⟨text, rfl⟩
    exact ⟨_, Utf16.paired_iff.2 ⟨_, rfl⟩, rfl⟩

/-- **The well-formed bytes are the encodings of texts.** -/
theorem wellFormed_iff {e : Encoding} {body : List UInt8} :
    e.WellFormed body ↔ ∃ text, body = e.encode text := by
  cases e with
  | utf8 =>
      simp only [WellFormed, Utf8.sequences_iff, utf8_bytes]
      constructor
      · rintro ⟨s, rfl⟩
        exact ⟨String.ofList s, by rw [String.toList_ofList]⟩
      · rintro ⟨text, rfl⟩
        exact ⟨_, rfl⟩
  | utf16le => exact exists_paired_iff
  | utf16be => exact exists_paired_iff

end Encoding

end PerfGate.Text
