import PerfGate.Proofs.Log.Noise

/-!
# Log — texts put together

What is found on a line does not depend on the lines around it. In closed form (`readLines_eq`),
reading is a search for the first line that starts like a record and is none, and if there is no
such line, the records on the lines. So a text behind another one is read as it is by itself, only
with later numbers, and a record has the number of its line (`parse_compositional`).
-/

namespace PerfGate

/-- The record when its line stands `count` lines further down. -/
def Record.later (count : Nat) (r : Record) : Record := { r with line := r.line + count }

namespace Log

/-! ## Single lines -/

/-- A line that starts like a record. -/
def StartsRecord (line : List Char) : Prop := (Text.trim line).head? = some '{'

instance : DecidablePred StartsRecord := fun line =>
  inferInstanceAs (Decidable ((Text.trim line).head? = some '{'))

/-- A line that should be a record and is none. -/
def Malformed (line : List Char) : Prop :=
  StartsRecord line ∧ Json.parseObject? (Text.trim line) = none

instance : DecidablePred Malformed := fun line =>
  decidable_of_iff (StartsRecord line ∧ (Json.parseObject? (Text.trim line)).isNone)
    (and_congr_right fun _ => Option.isNone_iff_eq_none)

/-- The members of the record on a line. -/
def members? (line : List Char) : Option Json.Members :=
  if StartsRecord line then Json.parseObject? (Text.trim line) else none

theorem members?_eq_some_iff {line : List Char} {members : Json.Members} :
    members? line = some members ↔
      StartsRecord line ∧ Json.parseObject? (Text.trim line) = some members :=
  Option.ite_none_right_eq_some

theorem readLine_eq (path : String) (number : Nat) (line : List Char) :
    readLine path number line =
      if Malformed line then .error (.malformedLine path number)
      else .ok ((members? line).map (⟨number, ·⟩)) := by
  have hstarts : StartsRecord line ↔ ∃ rest, Text.trim line = '{' :: rest := List.head?_eq_some_iff
  unfold readLine
  split
  · rename_i rest htrim
    have hline : StartsRecord line := hstarts.2 ⟨rest, htrim⟩
    rw [members?, if_pos hline, ← htrim]
    cases hparse : Json.parseObject? (Text.trim line) with
    | none => rw [if_pos ⟨hline, hparse⟩]
    | some members =>
        have hgood : ¬ Malformed line := fun h => Option.some_ne_none _ (hparse.symm.trans h.2)
        rw [if_neg hgood]
        rfl
  · rename_i hnot
    have hline : ¬ StartsRecord line := fun h => by
      obtain ⟨rest, hrest⟩ := hstarts.1 h
      exact hnot rest hrest
    rw [members?, if_neg hline, if_neg fun h : Malformed line => hline h.1]
    rfl

/-! ## Numbered lines -/

/-- The lines of a text with their numbers, counted from one. -/
def numbered (text : String) : List (List Char × Nat) := (lines text).zipIdx 1

/-- The records on numbered lines. -/
def records (ls : List (List Char × Nat)) : List Record :=
  ls.filterMap fun l => (members? l.1).map (⟨l.2, ·⟩)

/-- The number of the first line that should be a record and is none. -/
def malformed? (ls : List (List Char × Nat)) : Option Nat :=
  (ls.find? fun l => Malformed l.1).map Prod.snd

/-- **Reading in closed form**: the first malformed line is the error, and without one the records
are those on the lines. -/
theorem readLines_eq (path : String) (first : Nat) (ls : List (List Char)) :
    readLines path first ls = match malformed? (ls.zipIdx first) with
      | some number => .error (.malformedLine path number)
      | none => .ok (records (ls.zipIdx first)) := by
  induction ls generalizing first with
  | nil => rfl
  | cons line rest ih =>
      rw [readLines, readLine_eq, ih, List.zipIdx_cons]
      unfold malformed? records
      by_cases hline : Malformed line
      · simp [hline, bind, Except.bind]
      · rw [if_neg hline, List.find?_cons_of_neg (by simpa using hline), List.filterMap_cons]
        cases ((rest.zipIdx (first + 1)).find? fun l => Malformed l.1).map Prod.snd with
        | some number => rfl
        | none => cases members? line <;> rfl

theorem parse_eq_error_iff {path text : String} {e : Error} :
    parse path text = .error e ↔
      ∃ number, malformed? (numbered text) = some number ∧ e = .malformedLine path number := by
  rw [parse, readLines_eq, numbered]
  cases malformed? ((lines text).zipIdx 1) with
  | none => simp
  | some number => simp [eq_comm]

theorem parse_eq_ok_iff {path text : String} {rs : List Record} :
    parse path text = .ok rs ↔
      malformed? (numbered text) = none ∧ rs = records (numbered text) := by
  rw [parse, readLines_eq, numbered]
  cases malformed? ((lines text).zipIdx 1) with
  | none => simp [eq_comm]
  | some number => simp

/-! ### The numbers of records -/

variable {text : String} {line : List Char} {number : Nat}

theorem pairwise_numbered (text : String) : (numbered text).Pairwise fun l l' => l.2 < l'.2 := by
  rw [← List.pairwise_map, numbered, List.zipIdx_map_snd]
  exact List.pairwise_lt_range'

/-- Records come in the order of their lines. -/
theorem pairwise_records (text : String) :
    (records (numbered text)).Pairwise fun r r' => r.line < r'.line := by
  rw [records, List.pairwise_filterMap]
  refine (pairwise_numbered text).imp ?_
  intro l l' hlt r hr r' hr'
  obtain ⟨members, -, rfl⟩ := Option.map_eq_some_iff.1 hr
  obtain ⟨members', -, rfl⟩ := Option.map_eq_some_iff.1 hr'
  exact hlt

theorem mem_records_iff {ls : List (List Char × Nat)} {r : Record} :
    r ∈ records ls ↔ ∃ line, (line, r.line) ∈ ls ∧ members? line = some r.members := by
  rw [records, List.mem_filterMap]
  constructor
  · rintro ⟨⟨line, number⟩, hl, hr⟩
    obtain ⟨members, hmembers, rfl⟩ := Option.map_eq_some_iff.1 hr
    exact ⟨line, hl, hmembers⟩
  · rintro ⟨line, hl, hmembers⟩
    exact ⟨(line, r.line), hl, Option.map_eq_some_iff.2 ⟨r.members, hmembers, rfl⟩⟩

theorem malformed?_eq_none_iff {ls : List (List Char × Nat)} :
    malformed? ls = none ↔ ∀ l ∈ ls, ¬ Malformed l.1 := by
  simp [malformed?]

/-- The line that is found is malformed, and no line with a smaller number is. -/
theorem malformed?_eq_some_iff : malformed? (numbered text) = some number ↔
    ∃ line, (line, number) ∈ numbered text ∧ Malformed line ∧
      ∀ l ∈ numbered text, l.2 < number → ¬ Malformed l.1 := by
  have hfound : ∀ n, malformed? (numbered text) = some n →
      ∃ line, (line, n) ∈ numbered text ∧ Malformed line ∧
        ∀ l ∈ numbered text, l.2 < n → ¬ Malformed l.1 := by
    intro n hn
    obtain ⟨⟨line, _⟩, hfind, rfl⟩ := Option.map_eq_some_iff.1 hn
    obtain ⟨hline, before, after, hsplit, hbefore⟩ := List.find?_eq_some_iff_append.1 hfind
    have hpairwise := pairwise_numbered text
    rw [hsplit] at hpairwise ⊢
    obtain ⟨-, hafter, -⟩ := List.pairwise_append.1 hpairwise
    have hbehind := (List.pairwise_cons.1 hafter).1
    refine ⟨line, List.mem_append_right _ List.mem_cons_self, of_decide_eq_true hline, ?_⟩
    intro l hl hlt
    rcases List.mem_append.1 hl with hl | hl
    · simpa using hbefore l hl
    · -- from the found line on, numbers are no smaller
      rcases List.mem_cons.1 hl with rfl | hl
      · exact absurd hlt (Nat.lt_irrefl _)
      · exact absurd hlt (Nat.lt_asymm (hbehind l hl))
  constructor
  · exact hfound number
  · rintro ⟨line, hmem, hline, hfirst⟩
    cases hn : malformed? (numbered text) with
    | none => exact absurd hline (malformed?_eq_none_iff.1 hn _ hmem)
    | some n =>
        obtain ⟨line', hmem', hline', hfirst'⟩ := hfound n hn
        rcases Nat.lt_trichotomy n number with hlt | rfl | hgt
        · exact absurd hline' (hfirst _ hmem' hlt)
        · rfl
        · exact absurd hline (hfirst' _ hmem hgt)

/-! ## One text behind another -/

/-- The number of line feeds in a text. -/
def feeds (text : String) : Nat := text.toList.count '\n'

theorem length_split (text : List Char) : (split text).length = text.count '\n' + 1 := by
  induction text with
  | nil => rfl
  | cons c rest ih =>
      unfold split at ih ⊢
      rw [List.splitOn_cons_eq_if_modifyHead, List.count_cons]
      split
      · rw [List.length_cons, ih]
      · rw [List.length_modifyHead, ih]

/-- The numbers go on behind the lines of the first text. -/
theorem numbered_feed (a b : String) : numbered (a ++ "\n" ++ b) =
    numbered a ++ (numbered b).map (Prod.map id (· + (feeds a + 1))) := by
  have hlines : lines (a ++ "\n" ++ b) = lines a ++ lines b := by
    show split (a ++ "\n" ++ b).toList = _
    rw [String.toList_append, String.toList_append, List.append_assoc]
    exact split_feed a.toList b.toList
  have hlength : (lines a).length = feeds a + 1 := length_split a.toList
  rw [numbered, hlines, List.zipIdx_append, hlength, numbered, numbered,
    List.map_snd_add_zipIdx_eq_zipIdx, Nat.add_comm 1]

theorem records_later (ls : List (List Char × Nat)) (count : Nat) :
    records (ls.map (Prod.map id (· + count))) = (records ls).map (.later count) := by
  unfold records
  rw [List.filterMap_map, List.map_filterMap]
  simp only [Function.comp_def, Prod.map, id, Option.map_map, Record.later]

theorem malformed?_later (ls : List (List Char × Nat)) (count : Nat) :
    malformed? (ls.map (Prod.map id (· + count))) = (malformed? ls).map (· + count) := by
  unfold malformed?
  rw [List.find?_map, Option.map_map, Option.map_map]
  rfl

theorem malformed?_append (ls ls' : List (List Char × Nat)) :
    malformed? (ls ++ ls') = (malformed? ls).or (malformed? ls') := by
  unfold malformed?
  rw [List.find?_append, Option.map_or]

/-- Reading a text behind another one. An error of the first text is that of both, at the same line.
If the first text is read, what is found in the second one is found as many lines further down as
the first one has line feeds, and one: its records stand behind those of the first, and its error is
that of both. In every text the numbers of the records increase, each record is the object on the
line of its number, and each line that starts like a record is one; or the error names the first
such line that is no object. -/
theorem parse_compositional (path a b : String) :
    (∀ e, parse path a = .error e → parse path (a ++ "\n" ++ b) = .error e) ∧
    (∀ ra, parse path a = .ok ra →
      (∀ rb, parse path b = .ok rb →
        parse path (a ++ "\n" ++ b) = .ok (ra ++ rb.map (.later (feeds a + 1)))) ∧
      (∀ e, parse path b = .error e → ∃ number, e = .malformedLine path number ∧
        parse path (a ++ "\n" ++ b) = .error (.malformedLine path (number + (feeds a + 1)))) ∧
      ra.Pairwise (fun r r' => r.line < r'.line) ∧
      (∀ r ∈ ra, ∃ line, (line, r.line) ∈ numbered a ∧ StartsRecord line ∧
        Json.parseObject? (Text.trim line) = some r.members) ∧
      (∀ l ∈ numbered a, StartsRecord l.1 → ∃ r ∈ ra, r.line = l.2)) ∧
    (∀ e, parse path a = .error e ↔ ∃ line number, e = .malformedLine path number ∧
      (line, number) ∈ numbered a ∧ Malformed line ∧
      ∀ l ∈ numbered a, l.2 < number → ¬ Malformed l.1) := by
  have hfirst : malformed? (numbered (a ++ "\n" ++ b)) =
      (malformed? (numbered a)).or ((malformed? (numbered b)).map (· + (feeds a + 1))) := by
    rw [numbered_feed, malformed?_append, malformed?_later]
  have hrecords : records (numbered (a ++ "\n" ++ b)) =
      records (numbered a) ++ (records (numbered b)).map (.later (feeds a + 1)) := by
    rw [numbered_feed, ← records_later]
    exact List.filterMap_append
  refine ⟨?_, ?_, ?_⟩
  · intro e he
    obtain ⟨number, hnumber, rfl⟩ := parse_eq_error_iff.1 he
    exact parse_eq_error_iff.2 ⟨number, by rw [hfirst, hnumber, Option.some_or], rfl⟩
  · intro ra ha
    obtain ⟨hnone, rfl⟩ := parse_eq_ok_iff.1 ha
    rw [hnone, Option.none_or] at hfirst
    refine ⟨?_, ?_, pairwise_records a, ?_, ?_⟩
    · intro rb hb
      obtain ⟨hnone', rfl⟩ := parse_eq_ok_iff.1 hb
      exact parse_eq_ok_iff.2 ⟨by rw [hfirst, hnone', Option.map_none], hrecords.symm⟩
    · intro e he
      obtain ⟨number, hnumber, rfl⟩ := parse_eq_error_iff.1 he
      refine ⟨number, rfl, parse_eq_error_iff.2 ⟨_, ?_, rfl⟩⟩
      rw [hfirst, hnumber, Option.map_some]
    · intro r hr
      obtain ⟨line, hline, hmembers⟩ := mem_records_iff.1 hr
      exact ⟨line, hline, members?_eq_some_iff.1 hmembers⟩
    · rintro ⟨line, number⟩ hl hstarts
      obtain ⟨members, hmembers⟩ := Option.ne_none_iff_exists'.1 fun hparse =>
        malformed?_eq_none_iff.1 hnone _ hl ⟨hstarts, hparse⟩
      exact ⟨⟨number, members⟩,
        mem_records_iff.2 ⟨line, hl, members?_eq_some_iff.2 ⟨hstarts, hmembers⟩⟩, rfl⟩
  · intro e
    rw [parse_eq_error_iff]
    simp only [malformed?_eq_some_iff]
    constructor
    · rintro ⟨number, ⟨line, hline⟩, rfl⟩
      exact ⟨line, number, rfl, hline⟩
    · rintro ⟨line, number, rfl, hline⟩
      exact ⟨number, ⟨line, hline⟩, rfl⟩

/-- A log whose record is on its second line, before a carriage return. -/
def startedLog : String := "started\n\x7b\"size\": 10\x7d\r"

/-- A log whose second line is cut off. -/
def cutLog : String := "\x7b\"size\": 20\x7d\n\x7b\"size\":"

theorem startedLog_followed :
    (∃ ra, parse "am.ndjson" startedLog = .ok ra ∧ ra.map (·.line) = [2] ∧
      parse "am.ndjson" (startedLog ++ "\n" ++ startedLog) = .ok (ra ++ ra.map (.later 2))) ∧
    parse "am.ndjson" cutLog = .error (.malformedLine "am.ndjson" 2) ∧
    parse "am.ndjson" (cutLog ++ "\n" ++ startedLog) = .error (.malformedLine "am.ndjson" 2) ∧
    parse "am.ndjson" (startedLog ++ "\n" ++ cutLog) = .error (.malformedLine "am.ndjson" 4) := by
  have hnone : malformed? (numbered startedLog) = none := by decide +kernel
  have hstarted : parse "am.ndjson" startedLog = .ok (records (numbered startedLog)) :=
    parse_eq_ok_iff.2 ⟨hnone, rfl⟩
  have hcut : parse "am.ndjson" cutLog = .error (.malformedLine "am.ndjson" 2) :=
    parse_eq_error_iff.2 ⟨2, by decide +kernel, rfl⟩
  have hlines : (records (numbered startedLog)).map (·.line) = [2] := by decide +kernel
  have hfeeds : feeds startedLog + 1 = 2 := by decide +kernel
  obtain ⟨-, hbehind, -⟩ := parse_compositional "am.ndjson" startedLog startedLog
  obtain ⟨hboth, -⟩ := hbehind _ hstarted
  obtain ⟨hbefore, -⟩ := parse_compositional "am.ndjson" cutLog startedLog
  obtain ⟨-, hcutBehind, -⟩ := parse_compositional "am.ndjson" startedLog cutLog
  obtain ⟨-, hcutLater, -⟩ := hcutBehind _ hstarted
  obtain ⟨number, hnumber, hfourth⟩ := hcutLater _ hcut
  obtain ⟨-, rfl⟩ := Error.malformedLine.inj hnumber
  refine ⟨⟨_, hstarted, hlines, ?_⟩, hcut, hbefore _ hcut, ?_⟩
  · rw [← hfeeds]
    exact hboth _ hstarted
  · rwa [hfeeds] at hfourth

end Log

end PerfGate
