import Mathlib.Data.List.Basic
import PerfGate.Text.Quoted

/-!
# Text — quoted names can be told apart

A character between quotes stands as it is, as a letter behind a backslash, or as its number
(`Form`), and none of these is the start of another. So a name can be read off its quoted form
together with where that form ends (`quoted_append_inj`), whatever the name holds, and what is
between the quotes is visible throughout (`visible_quoted`).
-/

namespace PerfGate

/-- What stands before the first mark, and what follows it. -/
theorem eq_of_append_cons {α : Type} {mark : α} {x y s t : List α} (hx : mark ∉ x) (hy : mark ∉ y)
    (h : x ++ mark :: s = y ++ mark :: t) : x = y ∧ s = t := by
  induction x generalizing y with
  | nil =>
      cases y with
      | nil => exact ⟨rfl, (List.cons.inj h).2⟩
      | cons b y => exact absurd ((List.cons.inj h).1 ▸ List.mem_cons_self) hy
  | cons a x ih =>
      rw [List.mem_cons, not_or] at hx
      cases y with
      | nil => exact absurd (List.cons.inj h).1.symm hx.1
      | cons b y =>
          obtain ⟨rfl, hmore⟩ := List.cons.inj h
          rw [List.mem_cons, not_or] at hy
          obtain ⟨rfl, hrest⟩ := ih hx.2 hy.2 hmore
          exact ⟨rfl, hrest⟩

/-! ## Digits -/

theorem exists_digitChar_of_mem_toDigits {b n : Nat} {c : Char} (hb : 1 < b)
    (h : c ∈ Nat.toDigits b n) : ∃ d < b, c = Nat.digitChar d := by
  induction n using Nat.strongRecOn with
  | ind n ih =>
      rcases Nat.lt_or_ge n b with hlt | hge
      · rw [Nat.toDigits_of_lt_base hlt, List.mem_singleton] at h
        exact ⟨n, hlt, h⟩
      · rw [Nat.toDigits_of_base_le hb hge, List.mem_append, List.mem_singleton] at h
        rcases h with h | h
        · exact ih (n / b) (Nat.div_lt_self (by omega) hb) h
        · exact ⟨n % b, Nat.mod_lt n (by omega), h⟩

theorem digitChar_inj : ∀ d < 16, ∀ e < 16, Nat.digitChar d = Nat.digitChar e → d = e := by decide

/-- Different numbers have different digits, as long as there is a character for each digit. -/
theorem toDigits_inj {b : Nat} (hb : 1 < b) (hb' : b ≤ 16) {n m : Nat}
    (h : Nat.toDigits b n = Nat.toDigits b m) : n = m := by
  have hdigit : ∀ d < b, ∀ e < b, Nat.digitChar d = Nat.digitChar e → d = e := fun d hd e he =>
    digitChar_inj d (by omega) e (by omega)
  induction n using Nat.strongRecOn generalizing m with
  | ind n ih =>
      have hlength := congrArg List.length h
      rcases Nat.lt_or_ge n b with hn | hn <;> rcases Nat.lt_or_ge m b with hm | hm
      · rw [Nat.toDigits_of_lt_base hn, Nat.toDigits_of_lt_base hm, List.singleton_inj] at h
        exact hdigit n hn m hm h
      · -- one digit against several
        rw [Nat.toDigits_of_lt_base hn, Nat.toDigits_of_base_le hb hm] at hlength
        simp at hlength
      · rw [Nat.toDigits_of_base_le hb hn, Nat.toDigits_of_lt_base hm] at hlength
        simp at hlength
      · rw [Nat.toDigits_of_base_le hb hn, Nat.toDigits_of_base_le hb hm] at h
        obtain ⟨hfront, hlast⟩ := List.append_inj' h rfl
        have hquotient := ih (n / b) (Nat.div_lt_self (by omega) hb) hfront
        have hremainder := hdigit _ (Nat.mod_lt n (by omega)) _ (Nat.mod_lt m (by omega))
          (List.singleton_inj.1 hlast)
        rw [← Nat.div_add_mod n b, ← Nat.div_add_mod m b, hquotient, hremainder]

namespace Text

/-! ## Visible characters -/

/-- Control characters: those below the space, and those from the delete character up to the
no-break space. -/
def isControl (c : Char) : Bool := decide (c.toNat < 0x20 ∨ 0x7f ≤ c.toNat ∧ c.toNat < 0xa0)

/-- Whether every character of a text leaves a mark of its own or is a space. -/
def Visible (text : List Char) : Prop := ∀ c ∈ text, isUnprintable c = false

/-- The characters of ASCII are decided by the first two ranges. -/
theorem isUnprintable_eq (c : Char) : isUnprintable c =
    (decide (c.toNat ≤ 0x1f) || decide (0x7f ≤ c.toNat) &&
      (decide (c.toNat ≤ 0xa0) || inRanges c.toNat (unprintableRanges.drop 2))) := by
  show inRanges c.toNat ((0x0, 0x1f) :: (0x7f, 0xa0) :: unprintableRanges.drop 2) = _
  rw [inRanges, inRanges, decide_eq_true (Nat.zero_le _), Bool.true_and]

theorem isUnprintable_of_isControl {c : Char} (h : isControl c = true) : isUnprintable c = true := by
  rw [isControl, decide_eq_true_eq] at h
  rw [isUnprintable_eq]
  simp only [Bool.or_eq_true, Bool.and_eq_true, decide_eq_true_eq]
  omega

theorem isUnprintable_of_ascii {c : Char} (h : 0x20 ≤ c.toNat) (h' : c.toNat < 0x7f) :
    isUnprintable c = false := by
  rw [isUnprintable_eq, decide_eq_false (by omega), decide_eq_false (by omega)]
  rfl

variable {s t : List Char}

theorem Visible.append (hs : Visible s) (ht : Visible t) : Visible (s ++ t) :=
  List.forall_mem_append.2 ⟨hs, ht⟩

theorem Visible.cons {c : Char} (hc : isUnprintable c = false) (hs : Visible s) :
    Visible (c :: s) :=
  List.forall_mem_cons.2 ⟨hc, hs⟩

theorem visible_nil : Visible [] := by simp [Visible]

theorem visible_quote : Visible ['\"'] :=
  .cons (isUnprintable_of_ascii (by decide) (by decide)) visible_nil

/-- Whether a text is made of visible ASCII characters other than the quote. -/
def Plain (text : List Char) : Prop :=
  ∀ c ∈ text, (0x20 ≤ c.toNat ∧ c.toNat < 0x7f) ∧ c ≠ '\"'

instance (text : List Char) : Decidable (Plain text) :=
  decidable_of_iff
    (text.all fun c => decide (0x20 ≤ c.toNat) && decide (c.toNat < 0x7f) && !decide (c = '\"'))
    (by simp [Plain])

theorem plain_append_iff : Plain (s ++ t) ↔ Plain s ∧ Plain t := List.forall_mem_append

theorem Plain.append (hs : Plain s) (ht : Plain t) : Plain (s ++ t) := plain_append_iff.2 ⟨hs, ht⟩

theorem Plain.cons {c : Char} (hc : Plain [c]) (hs : Plain s) : Plain (c :: s) := hc.append hs

theorem Plain.visible (h : Plain s) : Visible s := fun c hc =>
  isUnprintable_of_ascii (h c hc).1.1 (h c hc).1.2

theorem Plain.quote_notMem (h : Plain s) : '\"' ∉ s := fun hc => (h _ hc).2 rfl

theorem Visible.not_isControl (h : Visible s) {c : Char} (hc : c ∈ s) : isControl c = false := by
  by_contra hcontrol
  rw [Bool.not_eq_false] at hcontrol
  have hvisible := h c hc
  rw [isUnprintable_of_isControl hcontrol] at hvisible
  cases hvisible

theorem plain_digitChar : ∀ d < 16, Plain [Nat.digitChar d] := by decide

theorem plain_toDigits {b : Nat} (hb : 1 < b) (hb' : b ≤ 16) (n : Nat) :
    Plain (Nat.toDigits b n) := by
  intro c hc
  obtain ⟨d, hd, rfl⟩ := exists_digitChar_of_mem_toDigits hb hc
  exact plain_digitChar d (by omega) _ List.mem_cons_self

/-! ## One character -/

/-- The character that a letter behind a backslash stands for. -/
def meant (letter : Char) : Char :=
  if letter = 'n' then '\n' else if letter = 'r' then '\r' else if letter = 't' then '\t'
  else if letter = '0' then '\x00' else letter

/-- The forms of a character between quotes. -/
inductive Form (c : Char) : List Char → Prop where
  | plain (hquote : c ≠ '\"') (hbackslash : c ≠ '\\') : Form c [c]
  | letter (e : Char) (hu : e ≠ 'u') (h : meant e = c) : Form c ['\\', e]
  | number : Form c ('\\' :: 'u' :: '\x7b' :: Nat.toDigits 16 c.toNat ++ ['\x7d'])

theorem form_escaped (c : Char) : Form c (escaped c) := by
  unfold escaped
  split_ifs with hspecial hn hr ht h0 hunprintable
  · rcases hspecial with rfl | rfl
    · exact .letter _ (by decide) (by decide)
    · exact .letter _ (by decide) (by decide)
  · exact .letter 'n' (by decide) (by rw [hn]; decide)
  · exact .letter 'r' (by decide) (by rw [hr]; decide)
  · exact .letter 't' (by decide) (by rw [ht]; decide)
  · exact .letter '0' (by decide) (by rw [h0]; decide)
  · exact .number
  · rw [not_or] at hspecial
    exact .plain hspecial.1 hspecial.2

variable {c d : Char} {u v : List Char}

/-- No form starts with the quote that ends a name. -/
theorem Form.exists_head (h : Form c u) : ∃ e more, u = e :: more ∧ e ≠ '\"' := by
  cases h with
  | plain hquote _ => exact ⟨_, _, rfl, hquote⟩
  | letter e _ _ => exact ⟨_, _, rfl, by decide⟩
  | number => exact ⟨_, _, rfl, by decide⟩

theorem closing_notMem_toDigits (n : Nat) : '\x7d' ∉ Nat.toDigits 16 n := by
  have hdigit : ∀ d < 16, '\x7d' ≠ Nat.digitChar d := by decide
  intro h
  obtain ⟨d, hd, hc⟩ := exists_digitChar_of_mem_toDigits (by decide) h
  exact hdigit d hd hc

/-- A form tells its character and where it ends. -/
theorem Form.append_inj (hc : Form c u) (hd : Form d v) (h : u ++ s = v ++ t) : c = d ∧ s = t := by
  cases hc with
  | plain hquote hbackslash =>
      cases hd with
      | plain _ _ => exact List.cons.inj h
      | letter _ _ _ => exact absurd (List.cons.inj h).1 hbackslash
      | number => exact absurd (List.cons.inj h).1 hbackslash
  | letter e hu he =>
      cases hd with
      | plain _ hbackslash => exact absurd (List.cons.inj h).1.symm hbackslash
      | letter e' _ he' =>
          obtain ⟨hletter, hrest⟩ := List.cons.inj (List.cons.inj h).2
          exact ⟨by rw [← he, ← he', hletter], hrest⟩
      | number => exact absurd (List.cons.inj (List.cons.inj h).2).1 hu
  | number =>
      cases hd with
      | plain _ hbackslash => exact absurd (List.cons.inj h).1.symm hbackslash
      | letter _ hu _ => exact absurd (List.cons.inj (List.cons.inj h).2).1.symm hu
      | number =>
          have hdigits : Nat.toDigits 16 c.toNat ++ '\x7d' :: s =
              Nat.toDigits 16 d.toNat ++ '\x7d' :: t := by
            simpa using h
          obtain ⟨hnumber, hrest⟩ := eq_of_append_cons (closing_notMem_toDigits _)
            (closing_notMem_toDigits _) hdigits
          exact ⟨Char.toNat_inj.1 (toDigits_inj (by decide) (by decide) hnumber), hrest⟩

theorem visible_escaped (c : Char) : Visible (escaped c) := by
  unfold escaped
  have hplain : ∀ {text : List Char}, Plain text → Visible text := Plain.visible
  split_ifs with hspecial hn hr ht h0 hunprintable
  · rcases hspecial with rfl | rfl
    · exact .cons (isUnprintable_of_ascii (by decide) (by decide)) visible_quote
    · exact hplain (by decide)
  · exact hplain (by decide)
  · exact hplain (by decide)
  · exact hplain (by decide)
  · exact hplain (by decide)
  · exact hplain <| .append (.append (by decide) (plain_toDigits (by decide) (by decide) _))
      (by decide)
  · exact .cons (Bool.eq_false_iff.2 hunprintable) visible_nil

/-! ## Whole names -/

/-- What is between quotes tells its characters and where it ends. -/
theorem flatMap_escaped_append_inj {cs ds : List Char}
    (h : cs.flatMap escaped ++ '\"' :: s = ds.flatMap escaped ++ '\"' :: t) : cs = ds ∧ s = t := by
  induction cs generalizing ds with
  | nil =>
      cases ds with
      | nil => exact ⟨rfl, (List.cons.inj h).2⟩
      | cons d ds =>
          obtain ⟨e, more, hform, hquote⟩ := (form_escaped d).exists_head
          rw [List.flatMap_cons, hform] at h
          exact absurd (List.cons.inj h).1.symm hquote
  | cons c cs ih =>
      cases ds with
      | nil =>
          obtain ⟨e, more, hform, hquote⟩ := (form_escaped c).exists_head
          rw [List.flatMap_cons, hform] at h
          exact absurd (List.cons.inj h).1 hquote
      | cons d ds =>
          rw [List.flatMap_cons, List.flatMap_cons, List.append_assoc, List.append_assoc] at h
          obtain ⟨rfl, hmore⟩ := (form_escaped c).append_inj (form_escaped d) h
          obtain ⟨rfl, hrest⟩ := ih hmore
          exact ⟨rfl, hrest⟩

theorem toList_quoted (name : String) :
    (quoted name).toList = '\"' :: (name.toList.flatMap escaped ++ ['\"']) :=
  String.toList_ofList

/-- **A quoted name tells the name and where it ends.** -/
theorem quoted_append_inj {a b : String} (h : (quoted a).toList ++ s = (quoted b).toList ++ t) :
    a = b ∧ s = t := by
  rw [toList_quoted, toList_quoted, List.cons_append, List.cons_append, List.append_assoc,
    List.append_assoc] at h
  obtain ⟨hname, hrest⟩ := flatMap_escaped_append_inj (List.cons.inj h).2
  exact ⟨String.toList_inj.1 hname, hrest⟩

/-- **A quoted name is visible**, whatever the name holds. -/
theorem visible_quoted (name : String) : Visible (quoted name).toList := by
  rw [toList_quoted]
  refine visible_quote.append (.append ?_ visible_quote)
  intro c hc
  obtain ⟨d, -, hd⟩ := List.mem_flatMap.1 hc
  exact visible_escaped d c hd

end Text

end PerfGate
