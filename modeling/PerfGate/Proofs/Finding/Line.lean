import PerfGate.Proofs.Assessment.Loosening
import PerfGate.Proofs.Json.RoundTrip
import PerfGate.Proofs.Log.Noise
import PerfGate.Proofs.Text.Quoted

/-!
# Finding — lines that cannot be forged

A finding is shown on one line that ends in its configuration, and the first quote on that line
opens the configuration's name. So the line tells what is complained about and of which
configuration (`Finding.shown_inj`), whatever names were benchmarked, and a name cannot bring a line
of its own into the report (`Assessment.lines_report`).
-/

namespace PerfGate

open Text

/-! ## Configurations -/

theorem toList_toString (i : Int) :
    (toString i).toList = (if i < 0 then ['-'] else []) ++ Nat.toDigits 10 i.natAbs := by
  rw [Json.toString_eq_spelled]
  simp [Json.integerNumeral, Numeral.spelled, Numeral.fractionText, Numeral.exponentText]

theorem plain_toString (i : Int) : Plain (toString i).toList := by
  rw [toList_toString]
  refine .append ?_ (plain_toDigits (by decide) (by decide) _)
  split_ifs <;> decide

theorem notMem_toString {c : Char} (hdigit : c.isDigit = false) (hminus : c ≠ '-') (i : Int) :
    c ∉ (toString i).toList := by
  rw [toList_toString, List.mem_append, not_or]
  constructor
  · split_ifs
    · simpa using hminus
    · exact List.not_mem_nil
  · intro hc
    rw [isDigit_of_mem_toDigits hc] at hdigit
    cases hdigit

theorem toString_inj {i j : Int} (h : (toString i).toList = (toString j).toList) : i = j := by
  have hminus : ∀ {n : Nat} {digits : List Char}, '-' :: digits ≠ Nat.toDigits 10 n := by
    intro n digits hdigits
    have hdigit : '-'.isDigit = true :=
      isDigit_of_mem_toDigits (n := n) (hdigits ▸ List.mem_cons_self)
    cases hdigit
  have hdigits : ∀ {n m : Nat}, Nat.toDigits 10 n = Nat.toDigits 10 m → n = m :=
    toDigits_inj (by decide) (by decide)
  rw [toList_toString, toList_toString] at h
  split_ifs at h with hi hj hj
  · have habs := hdigits (List.cons.inj h).2
    omega
  · exact absurd h hminus
  · exact absurd h.symm hminus
  · have habs := hdigits h
    omega

namespace Configuration

/-- What stands in a shown configuration behind the name. -/
def shownSizes (c : Configuration) : List Char :=
  ',' :: ' ' :: ((toString c.dimBits).toList ++ ',' :: ' ' :: ((toString c.capacity).toList ++
    ',' :: ' ' :: ((toString c.size).toList ++ [')'])))

theorem toList_shown (c : Configuration) :
    c.shown.toList = '(' :: ((quoted c.name).toList ++ c.shownSizes) := by
  unfold shown shownSizes
  simp only [String.toList_append]
  simp

variable {c d : Configuration}

/-- **Different configurations are shown differently.** -/
theorem shown_inj (h : c.shown = d.shown) : c = d := by
  have hcomma : ∀ i : Int, ',' ∉ (toString i).toList := notMem_toString (by decide) (by decide)
  have hparen : ∀ i : Int, ')' ∉ (toString i).toList := notMem_toString (by decide) (by decide)
  have htext := congrArg String.toList h
  rw [toList_shown, toList_shown] at htext
  obtain ⟨hname, hsizes⟩ := quoted_append_inj (List.cons.inj htext).2
  obtain ⟨hdimBits, hmore⟩ := eq_of_append_cons (hcomma _) (hcomma _)
    (List.cons.inj (List.cons.inj hsizes).2).2
  obtain ⟨hcapacity, hmore⟩ := eq_of_append_cons (hcomma _) (hcomma _) (List.cons.inj hmore).2
  obtain ⟨hsize, -⟩ := eq_of_append_cons (hparen _) (hparen _) (List.cons.inj hmore).2
  cases c
  cases d
  simp only [mk.injEq]
  exact ⟨hname, toString_inj hdimBits, toString_inj hcapacity, toString_inj hsize⟩

theorem plain_shownSizes (c : Configuration) : Plain c.shownSizes := by
  have hseparated : ∀ {text : List Char}, Plain text → Plain (',' :: ' ' :: text) := fun h =>
    .cons (by decide) (.cons (by decide) h)
  unfold shownSizes
  apply hseparated
  refine .append (plain_toString _) (hseparated ?_)
  refine .append (plain_toString _) (hseparated ?_)
  exact .append (plain_toString _) (by decide)

theorem visible_shown (c : Configuration) : Visible c.shown.toList := by
  have hparen : isUnprintable '(' = false := isUnprintable_of_ascii (by decide) (by decide)
  rw [toList_shown]
  exact .cons hparen ((visible_quoted _).append (plain_shownSizes c).visible)

end Configuration

/-! ## Numbers -/

namespace Decimal

theorem plain_replicate_zero (k : Nat) : Plain (List.replicate k '0') := by
  have hzero : Plain ['0'] := by decide
  intro c hc
  rw [List.eq_of_mem_replicate hc]
  exact hzero _ List.mem_cons_self

theorem plain_sign (s : Bool) : Plain (if s then ['-'] else []) := by
  cases s <;> decide

theorem plain_digits (n : Nat) : Plain (Nat.toDigits 10 n) :=
  plain_toDigits (by decide) (by decide) n

namespace Layout

variable {digits : List Char}

theorem plain_positionalText (l : Layout) (h : Plain digits) (exponent : Int) :
    Plain (l.positionalText digits exponent) := by
  have htake : ∀ k, Plain (digits.take k) := fun k c hc => h c (List.mem_of_mem_take hc)
  have hdrop : ∀ k, Plain (digits.drop k) := fun k c hc => h c (List.mem_of_mem_drop hc)
  unfold positionalText
  simp only
  split_ifs
  · exact (h.append (plain_replicate_zero _)).append (by decide)
  · exact (h.append (plain_replicate_zero _)).append (by decide)
  · exact (htake _).append (.cons (by decide) (hdrop _))
  · exact .append (.cons (by decide) (.cons (by decide) (plain_replicate_zero _))) h

theorem plain_scientificText (l : Layout) (h : Plain digits) (exponent : Int) :
    Plain (l.scientificText digits exponent) := by
  have htake : Plain (digits.take 1) := fun c hc => h c (List.mem_of_mem_take hc)
  have hdrop : Plain (digits.drop 1) := fun c hc => h c (List.mem_of_mem_drop hc)
  have hfraction : Plain (if digits.length = 1 then [] else '.' :: digits.drop 1) := by
    split_ifs
    · decide
    · exact .cons (by decide) hdrop
  have hexponent : Plain (if (digits.length : Int) - 1 + exponent < 0 then ['-']
      else if l.plus then ['+'] else []) := by
    split_ifs <;> decide
  unfold scientificText
  simp only
  exact ((htake.append hfraction).append (.cons (by decide) hexponent)).append (plain_digits _)

/-- A double is spelled with plain characters, however it is laid out. -/
theorem plain_text (l : Layout) (x : Binary64) : Plain (l.text x) := by
  cases x with
  | nan => exact show Plain "NaN".toList by decide
  | infinite s =>
      rw [text]
      exact (plain_sign s).append (by decide)
  | finite s n _ =>
      rw [text]
      refine (plain_sign s).append ?_
      unfold magnitudeText
      simp only
      split_ifs
      · exact plain_positionalText l (plain_digits _) _
      · exact plain_scientificText l (plain_digits _) _

end Layout

theorem plain_fixedText (places : Nat) (x : Binary64) : Plain (fixedText places x) := by
  cases x with
  | nan => exact show Plain "NaN".toList by decide
  | infinite s =>
      rw [fixedText]
      exact (plain_sign s).append (by decide)
  | finite s n _ =>
      rw [fixedText]
      refine .append (.append ?_ ?_) (plain_digits _)
      · exact (plain_sign s).append (plain_digits _)
      · exact .cons (by decide) (plain_replicate_zero _)

end Decimal

/-! ## Findings -/

theorem Metric.plain_label (m : Metric) : Plain m.label.toList := by
  cases m <;> decide

theorem Workload.plain_tag (w : Workload) : Plain w.tag.toList := by
  cases w <;> decide

/-- No label is the start of another. -/
theorem Metric.label_append_inj {m n : Metric} {s t : List Char}
    (h : m.label.toList ++ s = n.label.toList ++ t) : m = n ∧ s = t := by
  cases m <;> cases n <;> simp [label] at h ⊢ <;> exact h

theorem Workload.tag_append_inj {w w' : Workload} {s t : List Char}
    (h : w.tag.toList ++ s = w'.tag.toList ++ t) : w = w' ∧ s = t := by
  cases w <;> cases w' <;> simp [tag] at h ⊢ <;> exact h

namespace Finding

/-- The line of a finding up to its configuration. -/
def heading : Finding → String
  | .missing w _ => "Missing " ++ w.tag ++ " group in current run: "
  | .drop m _ current recorded floor tolerance =>
    m.label ++ ": current=" ++ fixed 2 current ++ ", baseline=" ++ fixed 2 recorded ++
      ", allowed>= " ++ fixed 2 floor ++ " (tol=" ++ String.ofList (percentLayout.text tolerance) ++
      "%) key="
  | .noise m _ variation limit =>
    m.label ++ " variance too high: stdev/mean=" ++ fixed 3 variation ++ " > " ++ fixed 3 limit ++
      " key="

theorem shown_eq (f : Finding) : f.shown = f.heading ++ f.configuration.shown := by
  cases f <;> rfl

theorem plain_fixed (places : Nat) (x : Binary64) : Plain (fixed places x).toList := by
  rw [fixed, String.toList_ofList]
  exact Decimal.plain_fixedText places x

theorem plain_percentText (x : Binary64) : Plain (String.ofList (percentLayout.text x)).toList := by
  rw [String.toList_ofList]
  exact percentLayout.plain_text x

/-- No name stands before the configuration. -/
theorem plain_heading (f : Finding) : Plain f.heading.toList := by
  cases f <;>
    simp only [heading, String.toList_append, plain_append_iff, Metric.plain_label,
      Workload.plain_tag, plain_fixed, plain_percentText, true_and, and_true]
  -- the words between names and numbers
  all_goals decide

/-- **The line of a finding is visible**, whatever is in the name of its configuration. -/
theorem visible_shown (f : Finding) : Visible f.shown.toList := by
  rw [shown_eq, String.toList_append]
  exact f.plain_heading.visible.append f.configuration.visible_shown

theorem toList_shown (f : Finding) :
    f.shown.toList = (f.heading.toList ++ ['(']) ++ '\"' ::
      (f.configuration.name.toList.flatMap escaped ++ ['\"'] ++ f.configuration.shownSizes) := by
  rw [shown_eq, String.toList_append, Configuration.toList_shown, toList_quoted]
  simp

variable {f g : Finding}

/-- The first quote on a line opens the name, so what stands before it is the heading. -/
theorem heading_eq_of_shown_eq (h : f.shown = g.shown) : f.heading = g.heading := by
  have hquote : ∀ f : Finding, '\"' ∉ f.heading.toList ++ ['('] := fun f =>
    (f.plain_heading.append (by decide)).quote_notMem
  have htext := congrArg String.toList h
  rw [toList_shown, toList_shown] at htext
  obtain ⟨hfront, -⟩ := eq_of_append_cons (hquote f) (hquote g) htext
  exact String.toList_inj.1 (List.append_cancel_right hfront)

/-- A heading tells the kind of the finding and its metric. -/
theorem complaint_eq_of_heading_eq (h : f.heading = g.heading)
    (hconfiguration : f.configuration = g.configuration) : f.complaint = g.complaint := by
  have hmissing : ∀ {m : Metric} {s t : List Char},
      m.label.toList ++ s ≠ "Missing ".toList ++ t := by
    intro m s t
    cases m <;> simp [Metric.label]
  have hwords : ∀ {s t : List Char},
      ": current=".toList ++ s ≠ " variance too high: stdev/mean=".toList ++ t := by
    simp
  have htext := congrArg String.toList h
  cases f <;> cases g <;>
    simp only [heading, String.toList_append, List.append_assoc] at htext
  case missing.missing =>
    have htag := Workload.tag_append_inj (List.append_cancel_left htext)
    exact congrArg₂ Complaint.missing htag.1 hconfiguration
  case missing.drop => exact absurd htext.symm hmissing
  case missing.noise => exact absurd htext.symm hmissing
  case drop.missing => exact absurd htext hmissing
  case drop.drop =>
    exact congrArg₂ Complaint.drop (Metric.label_append_inj htext).1 hconfiguration
  case drop.noise => exact absurd (Metric.label_append_inj htext).2 hwords
  case noise.missing => exact absurd htext hmissing
  case noise.drop => exact absurd (Metric.label_append_inj htext).2.symm hwords
  case noise.noise =>
    exact congrArg₂ Complaint.noise (Metric.label_append_inj htext).1 hconfiguration

/-- **A line tells what is complained about and of which configuration.** -/
theorem shown_inj (h : f.shown = g.shown) :
    f.configuration = g.configuration ∧ f.complaint = g.complaint := by
  have hheading := heading_eq_of_shown_eq h
  have hconfiguration : f.configuration = g.configuration := by
    rw [shown_eq, shown_eq, hheading] at h
    exact Configuration.shown_inj ((String.append_right_inj _).1 h)
  exact ⟨hconfiguration, complaint_eq_of_heading_eq hheading hconfiguration⟩

end Finding

/-! ## Reports -/

namespace Assessment

/-- The lines of a report: an empty one, a heading, and one for each finding. -/
def reportLines (a : Assessment) : List (List Char) :=
  [] :: "PERF REGRESSION DETECTED:".toList ::
    a.findings.map fun f => " -  ".toList ++ f.shown.toList

theorem feed_notMem_reportLines {a : Assessment} : ∀ line ∈ a.reportLines, '\n' ∉ line := by
  have hindent : Plain " -  ".toList := by decide
  refine List.forall_mem_cons.2 ⟨List.not_mem_nil, List.forall_mem_cons.2 ⟨by decide, ?_⟩⟩
  intro line hline hfeed
  obtain ⟨f, -, rfl⟩ := List.mem_map.1 hline
  cases (hindent.visible.append f.visible_shown).not_isControl hfeed

/-- A report has no other lines. It ends with a feed, and nothing follows. -/
theorem lines_report {a : Assessment} (h : a.findings ≠ []) :
    Log.lines a.report = a.reportLines ++ [[]] := by
  have hpasses : a.passes = false := by
    rwa [passes, List.isEmpty_eq_false_iff]
  have htext : a.report.toList = a.reportLines.flatMap fun line => line ++ ['\n'] := by
    rw [report, hpasses, reportLines]
    simp [String.toList_join, List.flatMap_map]
  rw [Log.lines, htext]
  exact Log.split_ended feed_notMem_reportLines

/-- **Lines of findings cannot be forged.** Different configurations are shown differently, and so
are findings that differ in their configuration or in what they complain about otherwise. No control
character, and so no line feed, gets into a configuration or a finding that is shown, whatever
characters its name holds. So a report that is not empty has an empty line, a heading and one line
for each finding, in their order, and no others: what follows the last feed is empty. -/
theorem report_unforgeable :
    (∀ c d : Configuration, c ≠ d → c.shown ≠ d.shown) ∧
    (∀ f g : Finding, f.configuration ≠ g.configuration ∨ f.complaint ≠ g.complaint →
      f.shown ≠ g.shown) ∧
    (∀ x : Char, isControl x = true → (∀ c : Configuration, x ∉ c.shown.toList) ∧
      ∀ f : Finding, x ∉ f.shown.toList) ∧
    (∀ a : Assessment, a.findings ≠ [] →
      Log.lines a.report = [] :: "PERF REGRESSION DETECTED:".toList ::
        a.findings.map (fun f => " -  ".toList ++ f.shown.toList) ++ [[]]) := by
  refine ⟨fun c d hne heq => hne (Configuration.shown_inj heq), ?_, ?_, fun a => lines_report⟩
  · intro f g hne heq
    obtain ⟨hconfiguration, hcomplaint⟩ := Finding.shown_inj heq
    exact hne.elim (fun h => h hconfiguration) fun h => h hcomplaint
  · intro x hx
    have hvisible : ∀ {text : List Char}, Visible text → x ∉ text := by
      intro text htext hmem
      rw [htext.not_isControl hmem] at hx
      cases hx
    exact ⟨fun c => hvisible c.visible_shown, fun f => hvisible f.visible_shown⟩

/-- A name that goes on, behind a quote and a feed, like another line of the report. -/
def forging : Configuration := ⟨"a\", 1, 2, 3)\n -  AM qps", 256, 16, 10⟩

/-- The configuration that its line starts like. -/
def imitated : Configuration := ⟨"a", 1, 2, 3⟩

theorem report_unforgeable_forging :
    forging.shown ≠ imitated.shown ∧
    (Finding.missing .am forging).shown ≠ (Finding.missing .am imitated).shown ∧
    '\n' ∉ (Finding.missing .am forging).shown.toList ∧
    Log.lines (report ⟨[.missing .am forging, .missing .am imitated], 2⟩) =
      [[], "PERF REGRESSION DETECTED:".toList,
        " -  Missing AM group in current run: (\"a\\\", 1, 2, 3)\\n -  AM qps\", 256, 16, 10)".toList,
        " -  Missing AM group in current run: (\"a\", 1, 2, 3)".toList, []] := by
  have hne : forging ≠ imitated := by decide
  refine ⟨report_unforgeable.1 _ _ hne, ?_, ?_, ?_⟩
  · exact report_unforgeable.2.1 _ _ (.inl hne)
  · exact (report_unforgeable.2.2.1 '\n' (by decide)).2 _
  · rw [report_unforgeable.2.2.2 _ (by simp)]
    decide +kernel

end Assessment

end PerfGate
