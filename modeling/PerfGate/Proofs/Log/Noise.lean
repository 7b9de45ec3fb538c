import Mathlib.Logic.Relation
import PerfGate.Proofs.Grouping.Refinement
import PerfGate.Proofs.Log.Lines
import PerfGate.Proofs.Text.Blank
import PerfGate.Proofs.Text.Encoding

/-!
# Log — console noise makes no difference

A log may be disturbed by lines that are no rows of a workload, put between any of its lines, and by
white space around its lines. One such change leaves what the lines contribute as it was
(`contributions?_of_disturbance`), and so does any number of them. Whatever the text is then stored
as, the groups that come of it are the same.
-/

namespace PerfGate

namespace Log

/-! ## Noise -/

/-- Lines that are no rows of a workload: blank ones, those that do not start like a record, and
records that lack a field of the workload. -/
inductive Noise (w : Workload) (line : List Char) : Prop where
  | blank (h : Text.trim line = [])
  | foreign (h : (Text.trim line).head? ≠ some '{')
  | incomplete (members : Json.Members) (h : Json.parseObject? (Text.trim line) = some members)
      (name : String) (hname : name ∈ w.requiredFields) (hlacks : members.get? name = none)

theorem contribution?_noise {w : Workload} {line : List Char} (h : Noise w line) :
    contribution? w line = some [] := by
  unfold contribution?
  cases h with
  | blank h => rw [h]
  | foreign h =>
      split
      · rename_i heq
        rw [heq] at h
        exact absurd rfl h
      · rfl
  | incomplete members h name hname hlacks =>
      have hmatches : w.matchesRecord ⟨0, members⟩ = false := by
        unfold Workload.matchesRecord
        rw [List.all_eq_false]
        refine ⟨name, hname, ?_⟩
        simp [Record.has, Record.get?, hlacks]
      split
      · rename_i heq
        rw [heq] at h
        rw [h, Option.bind_some, Workload.contribution?, hmatches]
        rfl
      · rfl

/-- A noise line may as well not be there. -/
theorem contributions?_noise {w : Workload} {line : List Char} (h : Noise w line)
    (rest : List (List Char)) : contributions? w (line :: rest) = contributions? w rest := by
  rw [contributions?, contribution?_noise h]
  simp

theorem contribution?_pad {w : Workload} {before after : List Char}
    (hbefore : ∀ c ∈ before, Text.isBlank c) (hafter : ∀ c ∈ after, Text.isBlank c)
    (line : List Char) : contribution? w (before ++ line ++ after) = contribution? w line := by
  unfold contribution?
  rw [Text.trim_append hbefore hafter]

/-! ## Places in a text -/

/-- The lines of a text, as `lines` has them. -/
def split (text : List Char) : List (List Char) := text.splitOn '\n'

/-- A line starts behind this text: it is empty or ends with a line feed. -/
def StartsLine (before : List Char) : Prop := before = [] ∨ ∃ b, before = b ++ ['\n']

/-- A line ends before this text: it is empty or starts with a line feed. -/
def EndsLine (after : List Char) : Prop := after = [] ∨ ∃ a, after = '\n' :: a

theorem split_feed (before after : List Char) :
    split (before ++ '\n' :: after) = split before ++ split after :=
  List.splitOn_append_cons_self before after

theorem split_line {line : List Char} (h : '\n' ∉ line) : split line = [line] :=
  List.splitOn_eq_singleton h

/-- Lines that are each ended by a feed. The last line of such a text is empty. -/
theorem split_ended {lines : List (List Char)} (h : ∀ line ∈ lines, '\n' ∉ line) :
    split (lines.flatMap fun line => line ++ ['\n']) = lines ++ [[]] := by
  induction lines with
  | nil => exact split_line List.not_mem_nil
  | cons line rest ih =>
      rw [List.flatMap_cons, List.append_assoc, List.singleton_append, split_feed,
        split_line (h line List.mem_cons_self), ih fun l hl => h l (List.mem_cons_of_mem _ hl)]
      rfl

theorem StartsLine.split_append {before : List Char} (h : StartsLine before) :
    ∃ ls, ∀ after, split (before ++ after) = ls ++ split after := by
  rcases h with rfl | ⟨b, rfl⟩
  · exact ⟨[], fun after => rfl⟩
  · exact ⟨split b, fun after => by rw [List.append_assoc, List.singleton_append, split_feed]⟩

theorem EndsLine.split_append {after : List Char} (h : EndsLine after) :
    ∃ ls, ∀ before, split (before ++ after) = split before ++ ls := by
  rcases h with rfl | ⟨a, rfl⟩
  · exact ⟨[], fun before => by rw [List.append_nil, List.append_nil]⟩
  · exact ⟨split a, fun before => split_feed before a⟩

/-- What is put before a text without a feed of its own goes to the first line. -/
theorem split_append_left {blanks : List Char} (h : '\n' ∉ blanks) (text : List Char) :
    ∃ line rest, split text = line :: rest ∧ split (blanks ++ text) = (blanks ++ line) :: rest := by
  have hfirst : ∀ line, '\n' ∉ line → split (blanks ++ line) = [blanks ++ line] := fun line hline =>
    split_line (by rw [List.mem_append]; exact not_or.2 ⟨h, hline⟩)
  by_cases hfeed : '\n' ∈ text
  · obtain ⟨line, rest, rfl, hline⟩ := List.eq_append_cons_of_mem hfeed
    refine ⟨line, split rest, ?_, ?_⟩
    · rw [split_feed, split_line hline, List.singleton_append]
    · rw [← List.append_assoc, split_feed, hfirst line hline, List.singleton_append]
  · exact ⟨text, [], split_line hfeed, hfirst text hfeed⟩

/-- What is put behind a text without a feed of its own goes to the last line. -/
theorem split_append_right {blanks : List Char} (h : '\n' ∉ blanks) (text : List Char) :
    ∃ init line, split text = init ++ [line] ∧
      split (text ++ blanks) = init ++ [line ++ blanks] := by
  have hlast : ∀ line, '\n' ∉ line → split (line ++ blanks) = [line ++ blanks] := fun line hline =>
    split_line (by rw [List.mem_append]; exact not_or.2 ⟨hline, h⟩)
  by_cases hfeed : '\n' ∈ text
  · -- the last feed of a text is the first of the text turned round
    obtain ⟨line, rest, hreverse, hline⟩ :=
      List.eq_append_cons_of_mem (List.mem_reverse.2 hfeed)
    have htext : text = rest.reverse ++ '\n' :: line.reverse := by
      rw [← List.reverse_reverse text, hreverse]
      simp
    have hline : '\n' ∉ line.reverse := by rwa [List.mem_reverse]
    refine ⟨split rest.reverse, line.reverse, ?_, ?_⟩
    · rw [htext, split_feed, split_line hline]
    · rw [htext, List.append_assoc, List.cons_append, split_feed, hlast _ hline]
  · exact ⟨[], text, split_line hfeed, hlast text hfeed⟩

/-! ## One change -/

/-- One change to the text of a log that is of no interest to a workload: a noise line between two
lines, behind the last line, or in place of the empty line behind the last feed; or white space at
the start or the end of a line. -/
inductive Disturbance (w : Workload) : List Char → List Char → Prop where
  | insert {before after line : List Char} (hplace : StartsLine before) (hline : '\n' ∉ line)
      (hnoise : Noise w line) : Disturbance w (before ++ after) (before ++ line ++ '\n' :: after)
  | append {text line : List Char} (hline : '\n' ∉ line) (hnoise : Noise w line) :
      Disturbance w text (text ++ '\n' :: line)
  | fill {text line : List Char} (hplace : StartsLine text) (hline : '\n' ∉ line)
      (hnoise : Noise w line) : Disturbance w text (text ++ line)
  | pad {before after blanks : List Char} (hplace : StartsLine before ∨ EndsLine after)
      (hblanks : ∀ c ∈ blanks, Text.isBlank c ∧ c ≠ '\n') :
      Disturbance w (before ++ after) (before ++ blanks ++ after)

/-- **One change leaves what the lines contribute as it was.** -/
theorem contributions?_of_disturbance {w : Workload} {text text' : List Char}
    (h : Disturbance w text text') :
    contributions? w (split text') = contributions? w (split text) := by
  cases h with
  | @insert before after line hplace hline hnoise =>
      obtain ⟨ls, hls⟩ := hplace.split_append
      rw [List.append_assoc, hls, hls, split_feed, split_line hline, List.singleton_append,
        contributions?_append, contributions?_noise hnoise, ← contributions?_append]
  | @append text line hline hnoise =>
      rw [split_feed, split_line hline, contributions?_append, contributions?_noise hnoise,
        ← contributions?_append, List.append_nil]
  | @fill text line hplace hline hnoise =>
      obtain ⟨ls, hls⟩ := hplace.split_append
      have hempty := hls []
      rw [List.append_nil, split_line List.not_mem_nil] at hempty
      -- the empty line behind the last feed was noise as well
      have hblank : Noise w [] := .blank rfl
      rw [hls, hempty, split_line hline, contributions?_append, contributions?_append,
        contributions?_noise hnoise, contributions?_noise hblank]
  | @pad before after blanks hplace hblanks =>
      have hfeed : '\n' ∉ blanks := fun hmem => (hblanks _ hmem).2 rfl
      have hblank : ∀ c ∈ blanks, Text.isBlank c := fun c hc => (hblanks c hc).1
      rcases hplace with hstart | hend
      · obtain ⟨ls, hls⟩ := hstart.split_append
        obtain ⟨line, rest, hsplit, hpadded⟩ := split_append_left hfeed after
        have hpad : contribution? w (blanks ++ line ++ []) = contribution? w line :=
          contribution?_pad hblank (by simp) line
        rw [List.append_nil] at hpad
        rw [List.append_assoc, hls, hls, hsplit, hpadded, contributions?_append,
          contributions?_append, contributions?, contributions?, hpad]
      · obtain ⟨ls, hls⟩ := hend.split_append
        obtain ⟨init, line, hsplit, hpadded⟩ := split_append_right hfeed before
        have hpad : contribution? w ([] ++ line ++ blanks) = contribution? w line :=
          contribution?_pad (by simp) hblank line
        rw [List.nil_append] at hpad
        rw [hls, hls, hsplit, hpadded]
        simp only [contributions?_append, contributions?, hpad]

/-! ## Any number of changes -/

/-- A text with any number of changes, one after another. -/
def Disturbed (w : Workload) (text text' : String) : Prop :=
  Relation.ReflTransGen (Disturbance w) text.toList text'.toList

theorem contributions?_of_disturbed {w : Workload} {text text' : String}
    (h : Disturbed w text text') :
    contributions? w (lines text') = contributions? w (lines text) := by
  show contributions? w (split text'.toList) = contributions? w (split text.toList)
  unfold Disturbed at h
  generalize text'.toList = s at h ⊢
  induction h with
  | refl => rfl
  | tail _ hstep ih => rw [contributions?_of_disturbance hstep, ih]

/-- Noise makes no difference: if the groups of a workload come of a text, the same groups come of
the text with any changes of that kind, in whatever encoding it is stored. -/
theorem groups_of_disturbed {w : Workload} {text text' path : String} {records rows : List Record}
    {g : Grouping} {bytes : List UInt8} (hparse : parse path text = .ok records)
    (hselect : w.select records = .ok rows) (hgroup : Grouping.ofRecords w rows = .ok g)
    (hdisturbed : Disturbed w text text') (hstored : Text.Stored text' bytes) (path' : String) :
    ∃ records' rows', read path' bytes = .ok records' ∧ w.select records' = .ok rows' ∧
      Grouping.ofRecords w rows' = .ok g := by
  have hlines := (exists_rows_iff path 1).1 ⟨records, rows, hparse, hselect, rfl⟩
  rw [← contributions?_of_disturbed hdisturbed] at hlines
  obtain ⟨records', rows', hparse', hselect', hmembers⟩ :=
    (exists_rows_iff path' 1).2 hlines
  refine ⟨records', rows', ?_, hselect', (Grouping.ofRecords_congr hmembers).2 hgroup⟩
  rw [read, bind_eq_ok_iff]
  exact ⟨text', mapError_eq_ok_iff.2 (Text.decode_stored hstored), hparse'⟩

/-- A log with one trial. -/
def oneTrial : String :=
  "\x7b\"name\": \"a\", \"dim_bits\": 256, \"capacity\": 16, \"size\": 10, \"iters\": 1, " ++
    "\"secs\": 1, \"queries_per_sec\": 80, \"eff_gb_per_sec\": 2, \"sample_index\": 0, " ++
    "\"warmup_ms\": 0, \"measure_ms\": 1\x7d\n"

theorem oneTrial_disturbed : ∃ records rows g records' rows',
    parse "am.ndjson" oneTrial = .ok records ∧ Workload.am.select records = .ok rows ∧
    Grouping.ofRecords .am rows = .ok g ∧
    read "am.ndjson" (Text.Encoding.utf16le.mark ++
      Text.Encoding.utf16le.encode ("started\n" ++ oneTrial ++ "\r")) = .ok records' ∧
    Workload.am.select records' = .ok rows' ∧ Grouping.ofRecords .am rows' = .ok g := by
  have hrun : (parse "am.ndjson" oneTrial >>= fun records => Workload.am.select records >>=
      Grouping.ofRecords .am).toOption.isSome := by
    decide +kernel
  simp only [Option.isSome_iff_exists, toOption_eq_some_iff, bind_eq_ok_iff] at hrun
  obtain ⟨g, records, hparse, rows, hselect, hgroup⟩ := hrun
  have hinsert : ∀ t, Disturbance .am t ("started".toList ++ '\n' :: t) := fun t =>
    @Disturbance.insert .am [] t _ (.inl rfl) (by decide) (.foreign (by decide))
  have hpad : ∀ t, Disturbance .am t (t ++ ['\r']) := fun t => by
    have hblank : ∀ c ∈ ['\r'], Text.isBlank c ∧ c ≠ '\n' := by
      rw [List.forall_mem_singleton]
      decide
    have hend := @Disturbance.pad .am t [] ['\r'] (.inr (.inl rfl)) hblank
    rwa [List.append_nil, List.append_nil] at hend
  have hdisturbed : Disturbed .am oneTrial ("started\n" ++ oneTrial ++ "\r") := by
    unfold Disturbed
    rw [String.toList_append, String.toList_append]
    exact (Relation.ReflTransGen.single (hinsert _)).tail (hpad _)
  obtain ⟨records', rows', hread, hselect', hgroup'⟩ :=
    groups_of_disturbed hparse hselect hgroup hdisturbed (.marked .utf16le) "am.ndjson"
  exact ⟨records, rows, g, records', rows', hparse, hselect, hgroup, hread, hselect', hgroup'⟩

end Log

end PerfGate
