import PerfGate.Proofs.Baseline.Complete
import PerfGate.Proofs.Configuration.Text
import PerfGate.Proofs.Grouping.Refinement
import PerfGate.Proofs.Json.Printable
import PerfGate.Proofs.Log.Noise
import PerfGate.Report

/-!
# Report — the artifact is a log

The artifact of a run can be read like any log: it gives one record for each group, in order, and
each record says what the group says (`Report.parse_artifact`). Names and provenance may hold any
characters. Only the numbers of the summaries are not promised to be the same, and those that JSON
cannot write are `null`.
-/

namespace PerfGate

/-! ## Groups -/

namespace Grouping

variable {w : Workload} {rs : List Record} {g : Grouping}

theorem inRange_configuration (h : ofRecords w rs = .ok g) :
    ∀ group ∈ g.groups, group.configuration.InRange := by
  intro group hgroup
  have hmem : group.configuration ∈ Rows.configurations w rs := by
    rw [← (ofRecords_summarizes h).map_configuration]
    exact List.mem_map_of_mem hgroup
  rw [Rows.configurations, List.mem_eraseDups, List.mem_filterMap] at hmem
  obtain ⟨r, -, hr⟩ := hmem
  exact Configuration.inRange_of_record hr

/-- A group has a summary of each metric of its workload, in their order. -/
theorem map_metric (h : ofRecords w rs = .ok g) :
    ∀ group ∈ g.groups, group.stats.map Prod.fst = g.workload.metrics := by
  intro group hgroup
  have hsummary := ofRecords_summarizes h
  rw [hsummary.groups] at hgroup
  obtain ⟨c, -, rfl⟩ := List.mem_map.1 hgroup
  rw [hsummary.workload]
  show ((w.metrics.map fun m => (m, Stats.ofList (Rows.values w rs c m))).map Prod.fst) = w.metrics
  rw [List.map_map]
  exact List.map_id _

end Grouping

/-! ## Members -/

/-- A summary as it is read back: each number as its text is read. -/
def Stats.reread (s : Stats) : Json.Value :=
  .object [("mean", Json.reread s.mean), ("median", Json.reread s.median),
    ("stdev", Json.reread s.stdev)]

theorem Stats.rereads_toValue (s : Stats) (depth : Nat) :
    Json.Rereads (depth + 1) s.toValue s.reread := by
  apply Json.rereads_object (by simp)
  exact .cons ⟨rfl, Json.rereads_real depth s.mean⟩ <|
    .cons ⟨rfl, Json.rereads_real depth s.median⟩ <|
      .cons ⟨rfl, Json.rereads_real depth s.stdev⟩ .nil

/-- The members of the metrics of a group are read back as its summaries are. -/
theorem Group.rereads_metricMembers (group : Group) (depth : Nat) :
    List.Forall₂ (fun m m' : String × Json.Value => m.1 = m'.1 ∧ Json.Rereads (depth + 1) m.2 m'.2)
      group.metricMembers (group.stats.map fun (m, s) => (m.field, s.reread)) := by
  rw [metricMembers, List.forall₂_map_left_iff, List.forall₂_map_right_iff, List.forall₂_same]
  exact fun (m, s) _ => ⟨rfl, s.rereads_toValue depth⟩

namespace Provenance

theorem exists_string_optional {name : String} {s? : Option String} {m : String × Json.Value}
    (h : m ∈ optional name s?) : ∃ s, m.2 = .string s := by
  cases s? with
  | none => cases h
  | some s => exact ⟨s, by rw [List.mem_singleton.1 h]⟩

/-- Provenance is made of strings only. -/
theorem exists_string {p : Provenance} {m : String × Json.Value} (h : m ∈ p.members) :
    ∃ s, m.2 = .string s := by
  unfold members at h
  rcases List.mem_append.1 h with h | h
  · rcases List.mem_append.1 h with h | h
    · simp only [List.mem_cons, List.not_mem_nil, or_false] at h
      rcases h with rfl | rfl | rfl
      · exact ⟨_, rfl⟩
      · exact ⟨_, rfl⟩
      · exact ⟨_, rfl⟩
    · exact exists_string_optional h
  · exact exists_string_optional h

end Provenance

namespace Report

/-- The fields of a line of the artifact. -/
def fields (w : Workload) (p : Provenance) : List String :=
  ["kind", "key"] ++ w.metrics.map Metric.field ++ ["runner_os", "image_os", "image_version"] ++
    (if p.compiler?.isSome then ["cmake_cxx_compiler"] else []) ++
    (if p.compilerVersion?.isSome then ["cmake_cxx_compiler_version"] else [])

theorem nodup_fields (w : Workload) (p : Provenance) : (fields w p).Nodup := by
  unfold fields
  generalize p.compiler?.isSome = compiler
  generalize p.compilerVersion?.isSome = version
  cases w <;> cases compiler <;> cases version <;> decide

/-- The members of a line of the artifact, as they are read back. -/
def rereadMembers (w : Workload) (p : Provenance) (group : Group) : Json.Members :=
  ("kind", .string w.tag) :: ("key", group.configuration.toValue) ::
    (group.stats.map fun (m, s) => (m.field, s.reread)) ++ p.members

variable {w : Workload} {p : Provenance} {group : Group}

theorem map_fst_rereadMembers (hstats : group.stats.map Prod.fst = w.metrics) :
    (rereadMembers w p group).map Prod.fst = fields w p := by
  have hmetrics : (group.stats.map fun (m, s) => (m.field, s.reread)).map Prod.fst =
      w.metrics.map Metric.field := by
    rw [← hstats, List.map_map, List.map_map]
    rfl
  have hprovenance : p.members.map Prod.fst = ["runner_os", "image_os", "image_version"] ++
      (if p.compiler?.isSome then ["cmake_cxx_compiler"] else []) ++
      (if p.compilerVersion?.isSome then ["cmake_cxx_compiler_version"] else []) := by
    unfold Provenance.members
    cases p.compiler? <;> cases p.compilerVersion? <;> rfl
  unfold rereadMembers fields
  rw [List.map_append, List.map_cons, List.map_cons, hmetrics, hprovenance]
  simp only [List.append_assoc, List.cons_append, List.nil_append]

/-- The line of a group is read back as its members. -/
theorem rereads_line (hconfiguration : group.configuration.InRange)
    (hstats : group.stats.map Prod.fst = w.metrics) (depth : Nat) :
    Json.Rereads (depth + 2)
      (.object (("kind", .string w.tag) :: group.members ++ p.members))
      (.object (rereadMembers w p group)) := by
  apply Json.rereads_object
  · rw [map_fst_rereadMembers hstats]
    exact nodup_fields w p
  · have hmetrics := group.rereads_metricMembers depth
    have hprovenance : List.Forall₂
        (fun m m' : String × Json.Value => m.1 = m'.1 ∧ Json.Rereads (depth + 1) m.2 m'.2)
        p.members p.members := by
      rw [List.forall₂_same]
      intro m hm
      obtain ⟨s, hs⟩ := Provenance.exists_string hm
      rw [hs]
      exact ⟨rfl, Json.rereads_string s⟩
    exact .cons ⟨rfl, Json.rereads_string w.tag⟩ <|
      .cons ⟨rfl, Configuration.rereads_toValue hconfiguration depth⟩ <| List.rel_append hmetrics hprovenance

end Report

/-! ## Lines -/

namespace Log

/-- A line with a record on it, whatever its number. -/
def IsRecord (path : String) (line : List Char) (members : Json.Members) : Prop :=
  ∀ number, readLine path number line = .ok (some ⟨number, members⟩)

/-- The line that an object is written on has a record on it: what the object is read back as. -/
theorem isRecord_object (path : String) {members members' : Json.Members}
    (h : Json.Rereads Json.maxDepth (.object members) (.object members')) :
    IsRecord path (Json.Value.object members).text members' := by
  intro number
  have hparse : Json.parseObject? (Json.Value.object members).text = some members' := by
    rw [Json.parseObject?, Json.parse?_of_rereads h]
  have htext : (Json.Value.object members).text =
      '\x7b' :: Json.joined (Json.Value.memberTexts members) ++ ['\x7d'] := rfl
  have htrim : Text.trim (Json.Value.object members).text = (Json.Value.object members).text := by
    rw [htext]
    exact Text.trim_eq_self (by decide) (by decide) _
  rw [readLine, htrim]
  rw [htext, List.cons_append] at hparse ⊢
  simp only [hparse]

/-- Records on the lines from a number on, and an empty line behind them. -/
theorem readLines_of_isRecord {path : String} {lines : List (List Char)}
    {records : List Json.Members} (h : List.Forall₂ (IsRecord path) lines records) (first : Nat) :
    readLines path first (lines ++ [[]]) =
      .ok ((records.zipIdx first).map fun (members, number) => ⟨number, members⟩) := by
  induction h generalizing first with
  | nil => rfl
  | cons hline _ ih =>
      rw [List.cons_append, readLines, hline first, ih (first + 1)]
      rfl

end Log

namespace Report

/-- The groups of several workloads in the order of the artifact, each with its workload. -/
def rows (gs : List Grouping) : List (Workload × Group) :=
  gs.flatMap fun g => g.groups.map fun group => (g.workload, group)

theorem toList_artifact (p : Provenance) (gs : List Grouping) :
    (artifact p gs).toList =
      ((rows gs).map fun row => (row.2.artifactLine row.1 p).toList).flatMap
        fun line => line ++ ['\n'] := by
  unfold artifact rows
  simp only [String.toList_join, List.flatMap_map, List.map_flatMap, List.flatMap_assoc, List.map_map,
    Function.comp_def, String.toList_append]
  rfl

/-! ## Reading the artifact -/

/-- What a record of the artifact says about a group. -/
structure Describes (p : Provenance) (w : Workload) (group : Group) (r : Record) : Prop where
  fields : r.members.map Prod.fst = fields w p
  kind : r.get? "kind" = some (.string w.tag)
  key : (r.get? "key").bind Configuration.ofValue? = some group.configuration
  stats : ∀ m ∈ w.metrics, ∃ s, group.stats? m = some s ∧ r.get? m.field = some s.reread
  runnerOs : r.get? "runner_os" = some (.string p.runnerOs)
  imageOs : r.get? "image_os" = some (.string p.imageOs)
  imageVersion : r.get? "image_version" = some (.string p.imageVersion)
  compiler : r.get? "cmake_cxx_compiler" = p.compiler?.map .string
  compilerVersion : r.get? "cmake_cxx_compiler_version" = p.compilerVersion?.map .string

theorem get?_optional {name : String} {s? : Option String} {members : Json.Members}
    (hnodup : (members.map Prod.fst).Nodup)
    (hmem : ∀ m ∈ Provenance.optional name s?, m ∈ members)
    (hnone : s? = none → name ∉ members.map Prod.fst) :
    members.get? name = s?.map .string := by
  cases s? with
  | none => exact Json.Members.get?_of_notMem (hnone rfl)
  | some s => exact Json.Members.get?_of_mem hnodup (hmem _ List.mem_cons_self)

/-- The members that a line is read back as describe its group. -/
theorem describes_rereadMembers (hconfiguration : group.configuration.InRange)
    (hstats : group.stats.map Prod.fst = w.metrics) (line : Nat) :
    Describes p w group ⟨line, rereadMembers w p group⟩ := by
  have hfields : (rereadMembers w p group).map Prod.fst = fields w p := map_fst_rereadMembers hstats
  have hnodup : ((rereadMembers w p group).map Prod.fst).Nodup := by
    rw [hfields]
    exact nodup_fields w p
  have hprovenance : ∀ m ∈ p.members, m ∈ rereadMembers w p group := fun m hm =>
    List.mem_append_right _ hm
  have hfirst : ∀ m ∈ [("runner_os", Json.Value.string p.runnerOs),
      ("image_os", .string p.imageOs), ("image_version", .string p.imageVersion)],
      m ∈ rereadMembers w p group := fun m hm =>
    hprovenance m (List.mem_append_left _ (List.mem_append_left _ hm))
  refine ⟨hfields, ?_, ?_, ?_, ?_, ?_, ?_, ?_, ?_⟩
  · exact Json.Members.get?_of_mem hnodup List.mem_cons_self
  · have hkey : (rereadMembers w p group).get? "key" = some group.configuration.toValue :=
      Json.Members.get?_of_mem hnodup (List.mem_cons_of_mem _ List.mem_cons_self)
    show ((rereadMembers w p group).get? "key").bind Configuration.ofValue? = _
    rw [hkey, Option.bind_some, Configuration.ofValue?_toValue hconfiguration]
  · intro m hm
    obtain ⟨s, hs⟩ : ∃ s, group.stats? m = some s := by
      rw [← Option.ne_none_iff_exists', Group.stats?, Ne, List.lookup_eq_none_iff]
      rw [← hstats] at hm
      obtain ⟨⟨m', s⟩, hmem, rfl⟩ := List.mem_map.1 hm
      intro hnone
      simpa using hnone _ hmem
    have hmem : (m.field, s.reread) ∈ group.stats.map fun (m, s) => (m.field, s.reread) :=
      List.mem_map.2 ⟨(m, s), lookup_mem hs, rfl⟩
    exact ⟨s, hs, Json.Members.get?_of_mem hnodup
      (List.mem_append_left _ (List.mem_cons_of_mem _ (List.mem_cons_of_mem _ hmem)))⟩
  · exact Json.Members.get?_of_mem hnodup (hfirst _ List.mem_cons_self)
  · exact Json.Members.get?_of_mem hnodup (hfirst _ (List.mem_cons_of_mem _ List.mem_cons_self))
  · exact Json.Members.get?_of_mem hnodup
      (hfirst _ (List.mem_cons_of_mem _ (List.mem_cons_of_mem _ List.mem_cons_self)))
  · apply get?_optional hnodup
    · exact fun m hm => hprovenance m (List.mem_append_left _ (List.mem_append_right _ hm))
    · intro hnone
      rw [hfields, fields, hnone]
      generalize p.compilerVersion?.isSome = version
      cases w <;> cases version <;> decide
  · apply get?_optional hnodup
    · exact fun m hm => hprovenance m (List.mem_append_right _ hm)
    · intro hnone
      rw [hfields, fields, hnone]
      generalize p.compiler?.isSome = compiler
      cases w <;> cases compiler <;> decide

theorem forall₂_zipIdx {α β : Type} {R : α → β × Nat → Prop} {f : α → β} {xs : List α}
    (h : ∀ x ∈ xs, ∀ i, R x (f x, i)) (first : Nat) :
    List.Forall₂ R xs ((xs.map f).zipIdx first) := by
  induction xs generalizing first with
  | nil => exact .nil
  | cons x rest ih =>
      rw [List.map_cons, List.zipIdx_cons]
      exact .cons (h x List.mem_cons_self first)
        (ih (fun y hy => h y (List.mem_cons_of_mem _ hy)) (first + 1))

/-- The artifact of a run is read as one record for each group, in their order and on lines numbered
from one. Each record has the fields of the artifact and no others, and spells the tag, the
configuration and the provenance as they were. -/
theorem parse_artifact {gs : List Grouping} (h : ∀ g ∈ gs, ∃ w rs, Grouping.ofRecords w rs = .ok g)
    (p : Provenance) (path : String) :
    ∃ records, Log.parse path (artifact p gs) = .ok records ∧
      records.map (·.line) = List.range' 1 records.length ∧
      List.Forall₂ (fun row r => Describes p row.1 row.2 r) (rows gs) records := by
  have hrows : ∀ row ∈ rows gs, row.2.configuration.InRange ∧
      row.2.stats.map Prod.fst = row.1.metrics := by
    intro row hrow
    obtain ⟨g, hg, hrow⟩ := List.mem_flatMap.1 hrow
    obtain ⟨group, hgroup, rfl⟩ := List.mem_map.1 hrow
    obtain ⟨w, rs, hrecords⟩ := h g hg
    exact ⟨Grouping.inRange_configuration hrecords group hgroup,
      Grouping.map_metric hrecords group hgroup⟩
  -- each line by itself, whatever its number
  have hlines : List.Forall₂ (Log.IsRecord path)
      ((rows gs).map fun row => (row.2.artifactLine row.1 p).toList)
      ((rows gs).map fun row => rereadMembers row.1 p row.2) := by
    rw [List.forall₂_map_left_iff, List.forall₂_map_right_iff, List.forall₂_same]
    intro row hrow
    rw [Group.artifactLine, Json.Value.toText, String.toList_ofList]
    exact Log.isRecord_object path (rereads_line (hrows row hrow).1 (hrows row hrow).2 125)
  have hfeed : ∀ line ∈ (rows gs).map fun row => (row.2.artifactLine row.1 p).toList,
      '\n' ∉ line := by
    intro line hline hmem
    obtain ⟨row, -, rfl⟩ := List.mem_map.1 hline
    rw [Group.artifactLine, Json.Value.toText, String.toList_ofList] at hmem
    exact absurd (Json.Value.printable_text _ _ hmem) (by decide)
  have hparse : Log.parse path (artifact p gs) = .ok
      ((((rows gs).map fun row => rereadMembers row.1 p row.2).zipIdx 1).map
        fun (members, number) => ⟨number, members⟩) := by
    rw [Log.parse, ← Log.readLines_of_isRecord hlines 1, ← Log.split_ended hfeed,
      ← toList_artifact]
    rfl
  refine ⟨_, hparse, ?_, ?_⟩
  · rw [List.map_map, List.length_map, List.length_zipIdx]
    exact List.zipIdx_map_snd 1 _
  · rw [List.forall₂_map_right_iff]
    exact forall₂_zipIdx (fun row hrow line =>
      describes_rereadMembers (hrows row hrow).1 (hrows row hrow).2 line) 1

/-- Configurations whose names have to be escaped: by letters, and by the number of a character. -/
def escapedRows : List Record :=
  [.spelling .am 1 ⟨"a\"b\\c\n\x7b", 256, 16, -9⟩ [80, 2],
    .spelling .am 2 ⟨"\x01\x1f\r\t€\x7f", 256, 16, 10⟩ [70, 1]]

theorem parse_artifact_escaped : ∃ g records, Grouping.ofRecords .am escapedRows = .ok g ∧
    Log.parse "perf_agg.ndjson" (artifact ⟨"\n", "", "\"", some "\\", none⟩ [g]) = .ok records ∧
    records.map (·.line) = [1, 2] ∧
    records.map (fun r => (r.get? "key").bind Configuration.ofValue?) =
      [some ⟨"a\"b\\c\n\x7b", 256, 16, -9⟩, some ⟨"\x01\x1f\r\t€\x7f", 256, 16, 10⟩] ∧
    records.map (fun r => r.get? "runner_os") = [some (.string "\n"), some (.string "\n")] := by
  have htrial : ∀ r ∈ escapedRows, r.IsTrial .am := by decide
  obtain ⟨g, hg⟩ := Grouping.exists_ofRecords_iff.2 htrial
  obtain ⟨records, hparse, hlines, hrows⟩ :=
    parse_artifact (List.forall_mem_singleton.2 ⟨.am, escapedRows, hg⟩)
      ⟨"\n", "", "\"", some "\\", none⟩ "perf_agg.ndjson"
  have hrecords : records.map (fun r => (r.get? "key").bind Configuration.ofValue?) =
      (rows [g]).map fun row => some row.2.configuration :=
    (map_eq_map_of_forall₂ (hrows.imp fun _ _ h => h.key.symm)).symm
  have hconfigurations : (rows [g]).map (fun row => some row.2.configuration) =
      (Rows.configurations .am escapedRows).map some := by
    rw [← (Grouping.ofRecords_summarizes hg).map_configuration]
    simp [rows]
  have hspelled : (Rows.configurations .am escapedRows).map some =
      [some ⟨"a\"b\\c\n\x7b", 256, 16, -9⟩, some ⟨"\x01\x1f\r\t€\x7f", 256, 16, 10⟩] := by
    decide
  have hkeys := hrecords.trans (hconfigurations.trans hspelled)
  have hlength : records.length = 2 := by simpa using congrArg List.length hkeys
  have hrunner : records.map (fun r => r.get? "runner_os") =
      (rows [g]).map fun _ => some (.string "\n") :=
    (map_eq_map_of_forall₂ (hrows.imp fun _ _ h => h.runnerOs.symm)).symm
  have hrowsLength : (rows [g]).length = 2 := hrows.length_eq.trans hlength
  refine ⟨g, records, hg, hparse, ?_, hkeys, ?_⟩
  · rw [hlines, hlength]
    rfl
  · rw [hrunner, List.map_const', hrowsLength]
    rfl

end Report

end PerfGate
