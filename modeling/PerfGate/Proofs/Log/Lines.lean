import PerfGate.Proofs.Attribution.Selection

/-!
# Log — line by line

Each line of a log contributes to the rows of a workload by itself: nothing, or one row, unless the
log is refused at it. Reading a log and selecting a workload come down to putting together what the
lines contribute (`exists_rows_iff`). The number of a line has no part in it.
-/

namespace PerfGate

/-! ## Records -/

namespace Workload

/-- What the members of a record contribute to the rows of a workload; `none` if a log with such a
record is refused. -/
def contribution? (w : Workload) (members : Json.Members) : Option (List Json.Members) :=
  if w.matchesRecord ⟨0, members⟩ then
    if w.other.matchesRecord ⟨0, members⟩ then none else some [members]
  else some []

theorem matchesRecord_congr (w : Workload) {r s : Record} (h : r.members = s.members) :
    w.matchesRecord r = w.matchesRecord s := by
  unfold matchesRecord Record.has Record.get?
  rw [h]

theorem select_singleton_iff {w : Workload} {r : Record} {row : List Json.Members} :
    (∃ rows, w.select [r] = .ok rows ∧ rows.map (·.members) = row) ↔
      w.contribution? r.members = some row := by
  have hself : w.matchesRecord ⟨0, r.members⟩ = w.matchesRecord r := matchesRecord_congr w rfl
  have hother : w.other.matchesRecord ⟨0, r.members⟩ = w.other.matchesRecord r :=
    matchesRecord_congr w.other rfl
  unfold contribution? select
  rw [hself, hother]
  by_cases hmatches : w.matchesRecord r = true
  · by_cases hboth : w.other.matchesRecord r = true
    · simp [hmatches, hboth]
    · simp [hmatches, hboth, select, Except.map]
  · simp [hmatches, select]

end Workload

/-! ## Lines -/

namespace Log

/-- What a line contributes to the rows of a workload; `none` if the log is refused at it. -/
def contribution? (w : Workload) (line : List Char) : Option (List Json.Members) :=
  match Text.trim line with
  | '{' :: rest => (Json.parseObject? ('{' :: rest)).bind w.contribution?
  | _ => some []

/-- What lines contribute together. -/
def contributions? (w : Workload) : List (List Char) → Option (List Json.Members)
  | [] => some []
  | line :: rest =>
    (contribution? w line).bind fun row => (contributions? w rest).map (row ++ ·)

theorem contributions?_append (w : Workload) (before after : List (List Char)) :
    contributions? w (before ++ after) =
      (contributions? w before).bind fun rows => (contributions? w after).map (rows ++ ·) := by
  induction before with
  | nil => simp [contributions?]
  | cons line rest ih =>
      rw [List.cons_append, contributions?, contributions?, ih]
      cases contribution? w line with
      | none => rfl
      | some row =>
          cases contributions? w rest with
          | none => rfl
          | some rows => simp [Function.comp_def, List.append_assoc]

/-- Reading a line and selecting its record is taking the contribution of the line. -/
theorem contribution?_eq_some_iff {w : Workload} (path : String) (number : Nat)
    {line : List Char} {row : List Json.Members} :
    contribution? w line = some row ↔ ∃ record?, readLine path number line = .ok record? ∧
      ∃ rows, w.select record?.toList = .ok rows ∧ rows.map (·.members) = row := by
  unfold contribution? readLine
  generalize Text.trim line = trimmed
  split
  · rename_i rest
    rcases Option.eq_none_or_eq_some (Json.parseObject? ('{' :: rest)) with hnone | ⟨members, hsome⟩
    · simp [hnone]
    · simp only [hsome, Option.bind_some, Except.ok.injEq, exists_eq_left', Option.toList_some]
      exact (Workload.select_singleton_iff (r := ⟨number, members⟩)).symm
  · simp [Workload.select, eq_comm]

/-- Reading lines and selecting a workload gives what the lines contribute, whatever the path and
the number of the first line. -/
theorem exists_rows_iff {w : Workload} (path : String) (first : Nat) {lines : List (List Char)}
    {rows : List Json.Members} :
    (∃ records rs, readLines path first lines = .ok records ∧ w.select records = .ok rs ∧
      rs.map (·.members) = rows) ↔ contributions? w lines = some rows := by
  induction lines generalizing first rows with
  | nil => simp [readLines, contributions?, Workload.select]
  | cons line rest ih =>
      simp only [readLines, contributions?, bind_eq_ok_iff, Option.bind_eq_some_iff,
        Option.map_eq_some_iff, ← ih (first + 1), contribution?_eq_some_iff path first]
      constructor
      · rintro ⟨_, rs, ⟨record?, hline, records, hrest, hrecords⟩, hselect, rfl⟩
        cases hrecords
        obtain ⟨own, hown, others, hothers, rfl⟩ := Workload.select_append_eq_ok_iff.1 hselect
        exact ⟨_, ⟨record?, hline, own, hown, rfl⟩, _, ⟨records, others, hrest, hothers, rfl⟩,
          (List.map_append).symm⟩
      · rintro ⟨_, ⟨record?, hline, own, hown, rfl⟩, _, ⟨records, others, hrest, hothers, rfl⟩, rfl⟩
        exact ⟨_, own ++ others, ⟨record?, hline, records, hrest, rfl⟩,
          Workload.select_append_eq_ok_iff.2 ⟨own, hown, others, hothers, rfl⟩, List.map_append⟩

end Log

end PerfGate
