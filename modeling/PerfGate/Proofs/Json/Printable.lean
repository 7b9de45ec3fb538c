import PerfGate.Proofs.Json.RoundTrip

/-!
# Json — compact text stays on one line

Control characters are escaped in strings and stand nowhere else, so the text of a value fits on one
line of a report, whatever names and values it is made of (`Value.printable_text`).
-/

namespace PerfGate

namespace Json

/-- Whether no control character stands in a text, so that it fits on one line. -/
def Printable (text : List Char) : Prop := ∀ c ∈ text, 32 ≤ c.toNat

instance (text : List Char) : Decidable (Printable text) :=
  decidable_of_iff (text.all fun c => decide (32 ≤ c.toNat)) (by simp [Printable])

theorem Printable.append {s t : List Char} (hs : Printable s) (ht : Printable t) :
    Printable (s ++ t) :=
  List.forall_mem_append.2 ⟨hs, ht⟩

theorem Printable.cons {c : Char} {s : List Char} (hc : 32 ≤ c.toNat) (hs : Printable s) :
    Printable (c :: s) :=
  List.forall_mem_cons.2 ⟨hc, hs⟩

theorem printable_nil : Printable [] := by simp [Printable]

theorem printable_digits {digits : List Char} (h : ∀ c ∈ digits, c.isDigit) : Printable digits := by
  intro c hc
  have hdigit := h c hc
  rw [Char.isDigit, Bool.and_eq_true, decide_eq_true_eq, decide_eq_true_eq] at hdigit
  exact Nat.le_trans (show 32 ≤ 48 by decide) hdigit.1

theorem le_toNat_digitChar : ∀ d < 16, 32 ≤ (Nat.digitChar d).toNat := by decide

theorem printable_escaped (c : Char) : Printable (escaped c) := by
  unfold escaped
  split_ifs with hquote hn hr ht hb hf hspace
  · rcases hquote with rfl | rfl <;> decide
  · decide
  · decide
  · decide
  · decide
  · decide
  · have hc : c.toNat < 32 := hspace
    have hhigh := le_toNat_digitChar (c.toNat / 16) (by omega)
    have hlow := le_toNat_digitChar (c.toNat % 16) (by omega)
    simp [Printable, hhigh, hlow]
  · exact .cons (Nat.not_lt.1 hspace) printable_nil

theorem printable_stringText (s : String) : Printable (stringText s) := by
  unfold stringText
  refine .cons (by decide) (.append ?_ (.cons (by decide) printable_nil))
  intro c hc
  obtain ⟨d, -, hd⟩ := List.mem_flatMap.1 hc
  exact printable_escaped d c hd

theorem printable_spelled {n : Numeral} (h : n.WellFormed) : Printable n.spelled := by
  unfold Numeral.spelled
  refine .append (.append (.append ?_ (printable_digits h.whole_digits)) ?_) ?_
  · cases n.negative <;> decide
  · cases hf : n.fraction? with
    | none => exact printable_nil
    | some f => exact .cons (by decide) (printable_digits (h.fraction_digits f hf))
  · cases n.exponent? with
    | none => exact printable_nil
    | some e =>
        refine .cons (by decide) (.cons ?_ (printable_digits fun _ => isDigit_of_mem_toDigits))
        split_ifs <;> decide

theorem printable_doubleText (x : Binary64) : Printable (doubleText x) := by
  cases x with
  | nan => decide
  | infinite s => cases s <;> decide
  | finite s n hn =>
      rw [doubleText_finite hn]
      exact printable_spelled wellFormed_doubleNumeral

theorem printable_joined {texts : List (List Char)} (h : ∀ text ∈ texts, Printable text) :
    Printable (joined texts) := by
  induction texts with
  | nil => exact printable_nil
  | cons text texts ih =>
      have hrest := ih fun t ht => h t (List.mem_cons_of_mem _ ht)
      have htext := h text List.mem_cons_self
      cases texts with
      | nil => exact htext
      | cons text' texts => exact htext.append (.cons (by decide) hrest)

mutual

/-- **The text of a value has no control characters**, whatever its strings hold. -/
theorem Value.printable_text (v : Value) : Printable v.text := by
  cases v with
  | null => decide
  | bool b => cases b <;> decide
  | integer i =>
      show Printable (toString i).toList
      rw [toString_eq_spelled]
      exact printable_spelled (wellFormed_integerNumeral i)
  | real x => exact printable_doubleText x
  | string s => exact printable_stringText s
  | array items =>
      exact .cons (by decide) (.append (printable_joined (Value.printable_texts items))
        (.cons (by decide) printable_nil))
  | object members =>
      exact .cons (by decide) (.append (printable_joined (Value.printable_memberTexts members))
        (.cons (by decide) printable_nil))

theorem Value.printable_texts (items : List Value) :
    ∀ text ∈ Value.texts items, Printable text := by
  cases items with
  | nil => simp [Value.texts]
  | cons v rest =>
      exact List.forall_mem_cons.2 ⟨Value.printable_text v, Value.printable_texts rest⟩

theorem Value.printable_memberTexts (members : List (String × Value)) :
    ∀ text ∈ Value.memberTexts members, Printable text := by
  cases members with
  | nil => simp [Value.memberTexts]
  | cons member rest =>
      obtain ⟨name, v⟩ := member
      refine List.forall_mem_cons.2 ⟨?_, Value.printable_memberTexts rest⟩
      exact (printable_stringText name).append (.cons (by decide) (Value.printable_text v))

end

end Json

end PerfGate
