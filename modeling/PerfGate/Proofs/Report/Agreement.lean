import PerfGate.Proofs.Report.ReadBack

/-!
# Report — console and artifact show the same

The artifact has one line for each line of the summary that shows a group, in the same order, and
that line is the line of the summary with the workload put in front and the provenance behind
(`Report.summary_artifact_agree`). So what is stored is what was shown, to the last digit.
-/

namespace PerfGate

/-! ## Objects in parts -/

namespace Json

theorem joined_cons {text : List Char} {texts : List (List Char)} (h : texts ≠ []) :
    joined (text :: texts) = text ++ ',' :: joined texts := by
  cases texts with
  | nil => exact absurd rfl h
  | cons next texts => rfl

theorem joined_append {texts more : List (List Char)} (h : texts ≠ []) (hmore : more ≠ []) :
    joined (texts ++ more) = joined texts ++ ',' :: joined more := by
  induction texts with
  | nil => exact absurd rfl h
  | cons text texts ih =>
      cases texts with
      | nil => exact joined_cons hmore
      | cons next texts =>
          have hnext : next :: texts ≠ [] := List.cons_ne_nil _ _
          rw [List.cons_append, joined_cons (List.append_ne_nil_of_left_ne_nil hnext more), ih hnext,
            joined_cons hnext, List.append_assoc, List.cons_append]

theorem Value.memberTexts_append (members more : List (String × Value)) :
    Value.memberTexts (members ++ more) = Value.memberTexts members ++ Value.memberTexts more := by
  induction members with
  | nil => rfl
  | cons member members ih => rw [List.cons_append, memberTexts, memberTexts, ih, List.cons_append]

theorem Value.memberTexts_ne_nil {members : List (String × Value)} (h : members ≠ []) :
    Value.memberTexts members ≠ [] := by
  cases members with
  | nil => exact absurd rfl h
  | cons member members => exact List.cons_ne_nil _ _

/-- The members of an object as they stand between its braces. -/
def between (members : Members) : List Char := joined (Value.memberTexts members)

theorem text_object (members : Members) :
    (Value.object members).text = '\x7b' :: (between members ++ ['\x7d']) := rfl

theorem between_append {members more : Members} (h : members ≠ []) (hmore : more ≠ []) :
    between (members ++ more) = between members ++ ',' :: between more := by
  unfold between
  rw [Value.memberTexts_append]
  exact joined_append (Value.memberTexts_ne_nil h) (Value.memberTexts_ne_nil hmore)

theorem between_cons (name : String) (v : Value) {more : Members} (hmore : more ≠ []) :
    between ((name, v) :: more) = memberText name v.text ++ ',' :: between more :=
  joined_cons (Value.memberTexts_ne_nil hmore)

end Json

/-! ## One line -/

namespace Report

/-- A line of the artifact against the line of the summary for the same group: the workload stands
in front of what is between the braces of that line, and the provenance, without its opening brace,
behind it. -/
def Extends (w : Workload) (p : Provenance) (shown stored : List Char) : Prop :=
  ∃ inside rest, shown = '\x7b' :: (inside ++ ['\x7d']) ∧ p.toValue.toText.toList = '\x7b' :: rest ∧
    stored = "\x7b\"kind\":\"".toList ++ w.tag.toList ++ "\",".toList ++ inside ++ ',' :: rest

/-- No character of a tag is escaped. -/
theorem memberText_kind (w : Workload) : Json.memberText "kind" (Json.Value.string w.tag).text =
    "\"kind\":\"".toList ++ w.tag.toList ++ ['\"'] := by
  cases w <;> decide

/-- **The artifact line of a group is its summary line**, with workload and provenance around it. -/
theorem extends_artifactLine (w : Workload) (p : Provenance) (group : Group) :
    Extends w p group.summaryLine.toList (group.artifactLine w p).toList := by
  have hgroup : group.members ≠ [] := List.cons_ne_nil _ _
  have hprovenance : p.members ≠ [] := List.cons_ne_nil _ _
  refine ⟨Json.between group.members, Json.between p.members ++ ['\x7d'], ?_, ?_, ?_⟩
  · rw [Group.summaryLine, Json.Value.toText, String.toList_ofList, Json.text_object]
  · rw [Json.Value.toText, String.toList_ofList, Provenance.toValue, Json.text_object]
  · rw [Group.artifactLine, Json.Value.toText, String.toList_ofList, Json.text_object,
      List.cons_append, Json.between_cons _ _ (List.append_ne_nil_of_left_ne_nil hgroup _),
      Json.between_append hgroup hprovenance, memberText_kind]
    simp

/-! ## All lines -/

/-- The lines that show a workload on the console: a banner, then one for each group. -/
def summaryLines (g : Grouping) : List (List Char) :=
  ("=== Aggregates (" ++ g.workload.tag ++ ") ===").toList ::
    g.groups.map fun group => group.summaryLine.toList

theorem toList_summary (gs : List Grouping) :
    (summary gs).toList = (gs.flatMap summaryLines).flatMap fun line => line ++ ['\n'] := by
  unfold summary workloadSummary summaryLines
  simp [String.toList_join, List.flatMap_map, List.flatMap_assoc]

theorem feed_notMem_toText (v : Json.Value) : '\n' ∉ v.toText.toList := by
  intro hfeed
  rw [Json.Value.toText, String.toList_ofList] at hfeed
  exact absurd (Json.Value.printable_text v _ hfeed) (by decide)

theorem feed_notMem_summaryLines (g : Grouping) : ∀ line ∈ summaryLines g, '\n' ∉ line := by
  refine List.forall_mem_cons.2 ⟨?_, ?_⟩
  · cases g.workload <;> decide
  · intro line hline
    obtain ⟨group, -, rfl⟩ := List.mem_map.1 hline
    exact feed_notMem_toText _

/-- **Console and artifact show the same.** The summary has a banner and one line for each group of
every workload, in their order, and no others. The artifact has one line for each of these groups, in
the same order, and no others, and each is the line of the summary with workload and provenance
around it. Both end with a feed, and nothing follows it. -/
theorem summary_artifact_agree (p : Provenance) (gs : List Grouping) :
    Log.lines (summary gs) = (gs.flatMap fun g =>
      ("=== Aggregates (" ++ g.workload.tag ++ ") ===").toList ::
        g.groups.map fun group => group.summaryLine.toList) ++ [[]] ∧
    ∃ stored, Log.lines (artifact p gs) = stored ++ [[]] ∧
      List.Forall₂ (fun row line => Extends row.1 p row.2.summaryLine.toList line)
        (gs.flatMap fun g => g.groups.map fun group => (g.workload, group)) stored := by
  constructor
  · rw [Log.lines, toList_summary]
    apply Log.split_ended
    intro line hline
    obtain ⟨g, -, hline⟩ := List.mem_flatMap.1 hline
    exact feed_notMem_summaryLines g line hline
  · refine ⟨(rows gs).map fun row => (row.2.artifactLine row.1 p).toList, ?_, ?_⟩
    · rw [Log.lines, toList_artifact]
      apply Log.split_ended
      intro line hline
      obtain ⟨row, -, rfl⟩ := List.mem_map.1 hline
      exact feed_notMem_toText _
    · show List.Forall₂ _ (rows gs) _
      rw [List.forall₂_map_right_iff, List.forall₂_same]
      exact fun row _ => extends_artifactLine row.1 p row.2

end Report

end PerfGate
