import PerfGate.Text.Blank

/-!
# Text — trimming takes what was put around

White space put before or behind a text is gone once the text is trimmed, whatever white space the
text has itself.
-/

namespace PerfGate.Text

variable {before after : List Char}

theorem trimStart_append_left (h : ∀ c ∈ before, isBlank c) (s : List Char) :
    trimStart (before ++ s) = trimStart s :=
  List.dropWhile_append_of_pos h

theorem trimStart_eq_nil (h : ∀ c ∈ after, isBlank c) : trimStart after = [] := by
  rw [← List.append_nil after, trimStart_append_left h]
  rfl

theorem trimEnd_append_right (h : ∀ c ∈ after, isBlank c) (s : List Char) :
    trimEnd (s ++ after) = trimEnd s := by
  have hreverse : ∀ c ∈ after.reverse, isBlank c := fun c hc => h c (List.mem_reverse.1 hc)
  unfold trimEnd
  rw [List.reverse_append, trimStart_append_left hreverse]

/-- White space behind a text is reached by the trimming at the start only if there is nothing
else. -/
theorem trimStart_append_right (h : ∀ c ∈ after, isBlank c) (s : List Char) :
    trimStart (s ++ after) = trimStart s ++ after ∨
      trimStart (s ++ after) = [] ∧ trimStart s = [] := by
  unfold trimStart
  rw [List.dropWhile_append]
  split
  · rename_i hnil
    exact .inr ⟨trimStart_eq_nil h, List.isEmpty_iff.1 hnil⟩
  · exact .inl rfl

theorem trim_append (hbefore : ∀ c ∈ before, isBlank c) (hafter : ∀ c ∈ after, isBlank c)
    (s : List Char) : trim (before ++ s ++ after) = trim s := by
  unfold trim
  rw [List.append_assoc, trimStart_append_left hbefore]
  rcases trimStart_append_right hafter s with hkept | ⟨hnil, hnil'⟩
  · rw [hkept, trimEnd_append_right hafter]
  · rw [hnil, hnil']

/-- A text without white space at its ends is not trimmed. -/
theorem trim_eq_self {c d : Char} (hc : isBlank c = false) (hd : isBlank d = false)
    (s : List Char) : trim (c :: s ++ [d]) = c :: s ++ [d] := by
  have hstart : trimStart (c :: s ++ [d]) = c :: s ++ [d] := by
    simp [trimStart, hc]
  have hend : trimStart (c :: s ++ [d]).reverse = (c :: s ++ [d]).reverse := by
    rw [List.reverse_append]
    simp [trimStart, hd]
  rw [trim, hstart, trimEnd, hend, List.reverse_reverse]

/-- Nor is a text without any white space. -/
theorem trim_of_not_blank {s : List Char} (h : ∀ c ∈ s, isBlank c = false) : trim s = s := by
  have hstart : ∀ {t : List Char}, (∀ c ∈ t, isBlank c = false) → trimStart t = t := by
    intro t ht
    cases t with
    | nil => rfl
    | cons c t => simp [trimStart, ht c List.mem_cons_self]
  rw [trim, hstart h, trimEnd, hstart fun c hc => h c (List.mem_reverse.1 hc), List.reverse_reverse]

end PerfGate.Text
