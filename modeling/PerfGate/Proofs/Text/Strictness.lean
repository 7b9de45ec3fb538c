import PerfGate.Log
import PerfGate.Proofs.Except
import PerfGate.Proofs.Text.WellFormed

/-!
# Text — what is decoded was encoded

Decoding is the inverse of encoding and no more: bytes are read as a text only if they are the
encoding of that text (`Encoding.decode?_eq_some_iff`), so nothing in them is dropped or replaced.
All other bytes are refused with the encoding that their mark stands for (`Log.decode_strict`).
-/

namespace PerfGate

namespace Text

/-! ## UTF-16 -/

namespace Utf16

/-- Only units with paired surrogates are decoded. -/
theorem paired_of_decode? {us : List Nat} {s : List Char} (hus : ∀ u ∈ us, u < 0x10000)
    (h : decode? us = some s) : Paired us := by
  fun_induction decode? us generalizing s with
  | case1 => exact .nil
  | case2 u hhigh v rest hlow ih =>
      obtain ⟨s', hs', -⟩ := Option.map_eq_some_iff.1 h
      rw [List.forall_mem_cons, List.forall_mem_cons] at hus
      exact .pair hhigh hlow (ih hus.2.2 hs')
  | case3 => simp at h
  | case4 => simp at h
  | case5 => simp at h
  | case6 u rest hhigh hlow ih =>
      obtain ⟨s', hs', -⟩ := Option.map_eq_some_iff.1 h
      rw [List.forall_mem_cons] at hus
      exact .single hus.1 hhigh hlow (ih hus.2 hs')

theorem encode_of_decode? {us : List Nat} {s : List Char} (hus : ∀ u ∈ us, u < 0x10000)
    (h : decode? us = some s) : encode s = us := by
  obtain ⟨s', rfl⟩ := paired_iff.1 (paired_of_decode? hus h)
  rw [decode?_encode, Option.some.injEq] at h
  rw [h]

end Utf16

/-! ## Bytes -/

namespace Encoding

theorem unit_lt (high low : UInt8) : unit high low < 0x10000 := by
  have hhigh := high.toNat_lt
  have hlow := low.toNat_lt
  unfold unit
  omega

theorem unitBytes_unit (high low : UInt8) : unitBytes (unit high low) = [high, low] := by
  have hlow := low.toNat_lt
  have hdiv : unit high low / 256 = high.toNat := by
    unfold unit
    omega
  have hmod : unit high low % 256 = low.toNat := by
    unfold unit
    omega
  rw [unitBytes, hdiv, hmod, UInt8.ofNat_toNat, UInt8.ofNat_toNat]

theorem eq_flatMap_of_pairUnits? {join : UInt8 → UInt8 → Nat} {split : Nat → List UInt8}
    (hjoin : ∀ a b, join a b < 0x10000 ∧ split (join a b) = [a, b]) {bytes : List UInt8}
    {us : List Nat} (h : pairUnits? join bytes = some us) :
    bytes = us.flatMap split ∧ ∀ u ∈ us, u < 0x10000 := by
  fun_induction pairUnits? join bytes generalizing us with
  | case1 =>
      cases h
      exact ⟨rfl, by simp⟩
  | case2 a b rest ih =>
      obtain ⟨us', hus', rfl⟩ := Option.map_eq_some_iff.1 h
      obtain ⟨hrest, hlt⟩ := ih hus'
      refine ⟨?_, List.forall_mem_cons.2 ⟨(hjoin a b).1, hlt⟩⟩
      rw [List.flatMap_cons, (hjoin a b).2, ← hrest]
      rfl
  | case3 => simp at h

/-- Units that are read from bytes in some order of the bytes, and are those of a text, are written
as those bytes. -/
theorem flatMap_encode_of_bind {join : UInt8 → UInt8 → Nat} {split : Nat → List UInt8}
    (hjoin : ∀ a b, join a b < 0x10000 ∧ split (join a b) = [a, b]) {bytes : List UInt8}
    {text : String}
    (h : ((pairUnits? join bytes).bind fun us => (Utf16.decode? us).map String.ofList) = some text) :
    bytes = (Utf16.encode text.toList).flatMap split := by
  obtain ⟨us, hunits, hdecode⟩ := Option.bind_eq_some_iff.1 h
  obtain ⟨s, hs, rfl⟩ := Option.map_eq_some_iff.1 hdecode
  obtain ⟨hbytes, hlt⟩ := eq_flatMap_of_pairUnits? hjoin hunits
  rw [String.toList_ofList, Utf16.encode_of_decode? hlt hs, hbytes]

/-- **Decoding is strict**: the bytes of a text are its encoding. -/
theorem decode?_eq_some_iff {e : Encoding} {bytes : List UInt8} {text : String} :
    e.decode? bytes = some text ↔ bytes = e.encode text := by
  constructor
  · intro h
    cases e with
    | utf8 =>
        unfold decode? String.fromUTF8? at h
        simp only at h
        split at h
        · rw [Option.some.injEq] at h
          rw [encode, ← h]
          exact List.toList_data_toByteArray.symm
        · cases h
    | utf16le =>
        exact flatMap_encode_of_bind (fun a b => ⟨unit_lt b a, by rw [unitBytes_unit]; rfl⟩) h
    | utf16be => exact flatMap_encode_of_bind (fun a b => ⟨unit_lt a b, unitBytes_unit a b⟩) h
  · rintro rfl
    exact decode?_encode e text

/-! ## Marks -/

/-- What bytes are told to be: an encoding by the mark in front of it, and UTF-8 if they start with
no mark. The last bytes are those to be decoded. -/
inductive Detected : List UInt8 → Encoding → List UInt8 → Prop where
  | marked (e : Encoding) (body : List UInt8) : Detected (e.mark ++ body) e body
  | plain {bytes : List UInt8} (h : ∀ e : Encoding, ¬ e.mark <+: bytes) : Detected bytes .utf8 bytes

theorem exists_detected (bytes : List UInt8) : ∃ e body, Detected bytes e body := by
  by_cases h : ∃ e : Encoding, e.mark <+: bytes
  · obtain ⟨e, body, rfl⟩ := h
    exact ⟨e, body, .marked e body⟩
  · rw [not_exists] at h
    exact ⟨.utf8, bytes, .plain h⟩

theorem detect_eq_of_detected {bytes body : List UInt8} {e : Encoding} (h : Detected bytes e body) :
    (detect bytes).1 = e ∧ bytes.drop (detect bytes).2 = body := by
  cases h with
  | marked =>
      rw [detect_mark_append]
      exact ⟨rfl, List.drop_left⟩
  | plain h =>
      unfold detect
      split
      · exact absurd ⟨_, rfl⟩ (h .utf16le)
      · exact absurd ⟨_, rfl⟩ (h .utf16be)
      · exact absurd ⟨_, rfl⟩ (h .utf8)
      · exact ⟨rfl, rfl⟩

end Encoding

theorem decode_eq_of_detected {bytes body : List UInt8} {e : Encoding}
    (h : Encoding.Detected bytes e body) : decode bytes =
      match e.decode? body with
      | some text => .ok text
      | none => .error e := by
  obtain ⟨rfl, rfl⟩ := Encoding.detect_eq_of_detected h
  rfl

theorem decode_eq_ok_iff {bytes : List UInt8} {text : String} :
    decode bytes = .ok text ↔ ∃ e, Encoding.Detected bytes e (e.encode text) := by
  constructor
  · intro h
    obtain ⟨e, body, hbytes⟩ := Encoding.exists_detected bytes
    rw [decode_eq_of_detected hbytes] at h
    cases hbody : e.decode? body with
    | none => simp [hbody] at h
    | some text' =>
        rw [hbody, Except.ok.injEq] at h
        subst h
        exact ⟨e, Encoding.decode?_eq_some_iff.1 hbody ▸ hbytes⟩
  · rintro ⟨e, hbytes⟩
    rw [decode_eq_of_detected hbytes, Encoding.decode?_encode]

theorem decode_eq_error_iff {bytes : List UInt8} {e : Encoding} : decode bytes = .error e ↔
    ∃ body, Encoding.Detected bytes e body ∧ ∀ text, body ≠ e.encode text := by
  have hrefused : ∀ (e : Encoding) (body : List UInt8),
      e.decode? body = none ↔ ∀ text, body ≠ e.encode text := fun e body => by
    simp only [Option.eq_none_iff_forall_ne_some, ne_eq, Encoding.decode?_eq_some_iff]
  constructor
  · intro h
    obtain ⟨e', body, hbytes⟩ := Encoding.exists_detected bytes
    rw [decode_eq_of_detected hbytes] at h
    cases hbody : e'.decode? body with
    | some text => simp [hbody] at h
    | none =>
        rw [hbody, Except.error.injEq] at h
        subst h
        exact ⟨body, hbytes, (hrefused e' body).1 hbody⟩
  · rintro ⟨body, hbytes, hbody⟩
    rw [decode_eq_of_detected hbytes, (hrefused e body).2 hbody]

end Text

/-! ## Logs -/

namespace Log

open Text (Encoding)

theorem decode_eq_ok_iff {path : String} {bytes : List UInt8} {text : String} :
    decode path bytes = .ok text ↔ ∃ e : Encoding, Encoding.Detected bytes e (e.encode text) :=
  mapError_eq_ok_iff.trans Text.decode_eq_ok_iff

/-- Decoding a log is the inverse of storing it, and strict. A text is read back from any of the
encodings behind its mark, and from plain UTF-8 unless it starts with the character of the mark.
What is read is a text whose encoding is all that stands behind the mark. Everything else is refused
with the encoding that the mark stands for: bytes that are no text in it, because they are not
well-formed. -/
theorem decode_strict (path : String) (text : String) (bytes : List UInt8) :
    (∀ e : Encoding, decode path (e.mark ++ e.encode text) = .ok text) ∧
    (text.toList.head? ≠ some '\ufeff' → decode path (Encoding.utf8.encode text) = .ok text) ∧
    (decode path bytes = .ok text ↔
      ∃ e : Encoding, Encoding.Detected bytes e (e.encode text)) ∧
    (∀ error, decode path bytes = .error error ↔ ∃ e body, error = .undecodable path e ∧
      Encoding.Detected bytes e body ∧ ∀ other, body ≠ e.encode other) ∧
    (∀ (e : Encoding) (body : List UInt8),
      e.WellFormed body ↔ ∃ other, body = e.encode other) := by
  have hstored : ∀ {bytes}, Text.Stored text bytes → decode path bytes = .ok text :=
    fun h => mapError_eq_ok_iff.2 (Text.decode_stored h)
  refine ⟨fun e => hstored (.marked e), fun h => hstored (.plain h), decode_eq_ok_iff, ?_,
    fun e body => Encoding.wellFormed_iff⟩
  intro error
  rw [decode, mapError_eq_error_iff]
  simp only [Text.decode_eq_error_iff]
  constructor
  · rintro ⟨e, ⟨body, hbytes, hbody⟩, rfl⟩
    exact ⟨e, body, rfl, hbytes, hbody⟩
  · rintro ⟨e, body, rfl, hbytes, hbody⟩
    exact ⟨e, ⟨body, hbytes, hbody⟩, rfl⟩

/-- The last unit is half of a pair. -/
def halfPair : List UInt8 := [0xff, 0xfe, 0x61, 0x00, 0x3d, 0xd8]

theorem halfPair_refused : "a😀".toList.head? ≠ some '\ufeff' ∧
    decode "am.ndjson" [0x61, 0xf0, 0x9f, 0x98, 0x80] = .ok "a😀" ∧
    decode "am.ndjson" [0xff, 0xfe, 0x61, 0x00, 0x3d, 0xd8, 0x00, 0xde] = .ok "a😀" ∧
    decode "am.ndjson" halfPair = .error (.undecodable "am.ndjson" .utf16le) ∧
    ∀ other, [0x61, 0x00, 0x3d, 0xd8] ≠ Encoding.utf16le.encode other := by
  have hhead : "a😀".toList.head? ≠ some '\ufeff' := by decide
  have hplain : Encoding.utf8.encode "a😀" = [0x61, 0xf0, 0x9f, 0x98, 0x80] := by decide +kernel
  have hmarked : Encoding.utf16le.mark ++ Encoding.utf16le.encode "a😀" =
      [0xff, 0xfe, 0x61, 0x00, 0x3d, 0xd8, 0x00, 0xde] := by decide +kernel
  have hbody : ∀ other, [0x61, 0x00, 0x3d, 0xd8] ≠ Encoding.utf16le.encode other := by
    intro other h
    have hnone : Encoding.utf16le.decode? [0x61, 0x00, 0x3d, 0xd8] = none := by decide +kernel
    rw [h, Encoding.decode?_encode] at hnone
    cases hnone
  obtain ⟨hstored, hutf8, -, herror, -⟩ := decode_strict "am.ndjson" "a😀" halfPair
  refine ⟨hhead, ?_, ?_, (herror _).2 ⟨.utf16le, _, rfl, .marked .utf16le _, hbody⟩, hbody⟩
  · rw [← hplain]
    exact hutf8 hhead
  · rw [← hmarked]
    exact hstored .utf16le

end Log

end PerfGate
