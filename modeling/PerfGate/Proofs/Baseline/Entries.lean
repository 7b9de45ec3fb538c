import PerfGate.Baseline.Basic
import PerfGate.Proofs.Except

/-!
# Baseline — entries

What an entry of a document has to be is said without its reader (`Accepted`), and so is what is
wrong with one that is refused (`Faulty`). Reading an entry decides between the two
(`readEntry_eq_ok_iff`, `readEntry_eq_error_iff`), and reading a document does it for each member in
turn (`parse_eq_ok_iff`, `parse_eq_error_iff`).
-/

namespace PerfGate

/-- A configuration is spelled by an array of four values and by nothing else. -/
theorem Configuration.ofValue?_eq_some_iff {v : Json.Value} {c : Configuration} :
    ofValue? v = some c ↔ ∃ name dimBits capacity size,
      v = .array [name, dimBits, capacity, size] ∧ Field.readString? name = some c.name ∧
      Field.readInteger? dimBits = some c.dimBits ∧
      Field.readInteger? capacity = some c.capacity ∧ Field.readInteger? size = some c.size := by
  constructor
  · intro h
    unfold ofValue? at h
    split at h
    · rename_i name dimBits capacity size
      simp only [Option.bind_eq_bind, Option.bind_eq_some_iff, Option.pure_def, Option.some.injEq]
        at h
      obtain ⟨n, hname, d, hdim, cap, hcapacity, s, hsize, rfl⟩ := h
      exact ⟨name, dimBits, capacity, size, rfl, hname, hdim, hcapacity, hsize⟩
    · cases h
  · rintro ⟨name, dimBits, capacity, size, rfl, hname, hdim, hcapacity, hsize⟩
    simp only [ofValue?, hname, hdim, hcapacity, hsize, Option.bind_eq_bind, Option.bind_some,
      Option.pure_def]

namespace Baseline

open Json (Value)

/-! ## What is accepted -/

/-- A key that is the text of an array of exactly four values: a name and three sizes, each spelled
as any field may be. -/
def Spells (key : String) (c : Configuration) : Prop :=
  ∃ name dimBits capacity size,
    Json.parse? key.toList = some (.array [name, dimBits, capacity, size]) ∧
    Field.readString? name = some c.name ∧ Field.readInteger? dimBits = some c.dimBits ∧
    Field.readInteger? capacity = some c.capacity ∧ Field.readInteger? size = some c.size

/-- A value that maps names to summaries, all of which can be read. -/
def Records (value : Value) (stats : List (String × Stats)) : Prop :=
  ∃ members, value = .object members ∧
    List.Forall₂ (fun m s => m.1 = s.1 ∧ readStats m.2 = .ok s.2) members stats

/-- A member of a document that is an entry for a workload. -/
structure Accepted (w : Workload) (m : String × Value) (entry : BaselineEntry) : Prop where
  key : Spells m.1 entry.configuration
  value : Records m.2 entry.stats
  metrics : ∀ metric ∈ w.metrics, (entry.stats.lookup metric.field).isSome

/-! ## What is refused -/

/-- What is wrong with a value that maps no names to summaries. -/
inductive GroupFault : Value → ShapeFault → Prop where
  | shape {value : Value} (h : ∀ members, value ≠ .object members) :
      GroupFault value (.wrongType value .group)
  | summary {before after : Json.Members} {name : String} {value : Value} {fault : ShapeFault}
      (hbefore : ∀ m ∈ before, ∃ s, readStats m.2 = .ok s) (h : readStats value = .error fault) :
      GroupFault (.object (before ++ (name, value) :: after)) fault

/-- What is wrong with a member of a document: its key, or else its value, or else the first metric
that is left out. -/
inductive Faulty (w : Workload) : String × Value → Fault → Prop where
  | key {key : String} {value : Value} (h : ∀ c, ¬ Spells key c) : Faulty w (key, value) (.badKey key)
  | value {key : String} {value : Value} {c : Configuration} {fault : ShapeFault}
      (hkey : Spells key c) (h : GroupFault value fault) :
      Faulty w (key, value) (.badGroup key fault)
  | metric {key : String} {value : Value} {c : Configuration} {stats : List (String × Stats)}
      {before after : List Metric} {metric : Metric} (hkey : Spells key c)
      (hvalue : Records value stats) (hmetrics : w.metrics = before ++ metric :: after)
      (hbefore : ∀ m ∈ before, (stats.lookup m.field).isSome)
      (h : stats.lookup metric.field = none) :
      Faulty w (key, value) (.missingMetric key metric)

/-! ## Reading -/

theorem readKey?_eq_some_iff {key : String} {c : Configuration} :
    readKey? key = some c ↔ Spells key c := by
  unfold readKey? Spells
  simp only [Option.bind_eq_some_iff, Configuration.ofValue?_eq_some_iff]
  constructor
  · rintro ⟨_, hparse, name, dimBits, capacity, size, rfl, hvalues⟩
    exact ⟨name, dimBits, capacity, size, hparse, hvalues⟩
  · rintro ⟨name, dimBits, capacity, size, hparse, hvalues⟩
    exact ⟨_, hparse, name, dimBits, capacity, size, rfl, hvalues⟩

theorem readMember_eq_ok_iff {name : String} {value : Value} {s : String × Stats} :
    (do return (name, ← readStats value) : Except ShapeFault (String × Stats)) = .ok s ↔
      name = s.1 ∧ readStats value = .ok s.2 := by
  rw [bind_eq_ok_iff]
  constructor
  · rintro ⟨x, hx, heq⟩
    cases heq
    exact ⟨rfl, hx⟩
  · rintro ⟨rfl, hstats⟩
    exact ⟨s.2, hstats, rfl⟩

theorem readMember_eq_error_iff {name : String} {value : Value} {fault : ShapeFault} :
    (do return (name, ← readStats value) : Except ShapeFault (String × Stats)) = .error fault ↔
      readStats value = .error fault := by
  rw [bind_eq_error_iff]
  constructor
  · rintro (h | ⟨x, -, heq⟩)
    · exact h
    · cases heq
  · exact .inl

theorem readGroup_eq_ok_iff {value : Value} {stats : List (String × Stats)} :
    readGroup value = .ok stats ↔ Records value stats := by
  unfold Records
  constructor
  · intro h
    unfold readGroup at h
    split at h
    · rename_i members
      exact ⟨members, rfl, (mapM_eq_ok_iff.1 h).imp fun ⟨_, _⟩ _ => readMember_eq_ok_iff.1⟩
    · cases h
  · rintro ⟨members, rfl, hmembers⟩
    exact mapM_eq_ok_iff.2 (hmembers.imp fun ⟨_, _⟩ _ => readMember_eq_ok_iff.2)

theorem readGroup_eq_error_iff {value : Value} {fault : ShapeFault} :
    readGroup value = .error fault ↔ GroupFault value fault := by
  constructor
  · intro h
    unfold readGroup at h
    split at h
    · obtain ⟨before, ⟨name, v⟩, after, rfl, hbefore, hv⟩ := mapM_eq_error_iff.1 h
      refine .summary ?_ (readMember_eq_error_iff.1 hv)
      rintro ⟨n, u⟩ hm
      obtain ⟨s, hs⟩ := hbefore _ hm
      exact ⟨s.2, (readMember_eq_ok_iff.1 hs).2⟩
    · rename_i hnot
      cases h
      exact .shape hnot
  · intro h
    cases h with
    | shape hnot =>
        unfold readGroup
        split
        · exact absurd rfl (hnot _)
        · rfl
    | summary hbefore hv =>
        refine mapM_eq_error_iff.2 ⟨_, _, _, rfl, ?_, readMember_eq_error_iff.2 hv⟩
        rintro ⟨n, u⟩ hm
        obtain ⟨s, hs⟩ := hbefore _ hm
        exact ⟨(n, s), readMember_eq_ok_iff.2 ⟨rfl, hs⟩⟩

theorem readEntry_eq_ok_iff {w : Workload} {m : String × Value} {entry : BaselineEntry} :
    readEntry w m.1 m.2 = .ok entry ↔ Accepted w m entry := by
  obtain ⟨c, stats⟩ := entry
  constructor
  · intro h
    unfold readEntry at h
    split at h
    · cases h
    · rename_i hkey
      split at h
      · cases h
      · rename_i hvalue
        split at h
        · cases h
        · rename_i hmetrics
          cases h
          refine ⟨readKey?_eq_some_iff.1 hkey, readGroup_eq_ok_iff.1 hvalue, ?_⟩
          intro metric hmetric
          have hsome := List.find?_eq_none.1 hmetrics metric hmetric
          rwa [Bool.not_eq_true, Option.isNone_eq_false_iff] at hsome
  · rintro ⟨hkey, hvalue, hmetrics⟩
    have hnone : w.metrics.find? (fun m => (stats.lookup m.field).isNone) = none := by
      rw [List.find?_eq_none]
      intro metric hmetric
      rw [Bool.not_eq_true, Option.isNone_eq_false_iff]
      exact hmetrics metric hmetric
    rw [readEntry, readKey?_eq_some_iff.2 hkey, readGroup_eq_ok_iff.2 hvalue]
    simp only [hnone]

theorem readEntry_eq_error_iff {w : Workload} {m : String × Value} {fault : Fault} :
    readEntry w m.1 m.2 = .error fault ↔ Faulty w m fault := by
  obtain ⟨key, value⟩ := m
  constructor
  · intro h
    unfold readEntry at h
    split at h
    · rename_i hkey
      cases h
      refine .key fun c hc => ?_
      rw [readKey?_eq_some_iff.2 hc] at hkey
      cases hkey
    · rename_i hkey
      split at h
      · rename_i hvalue
        cases h
        exact .value (readKey?_eq_some_iff.1 hkey) (readGroup_eq_error_iff.1 hvalue)
      · rename_i hvalue
        split at h
        · rename_i metric hmetrics
          cases h
          obtain ⟨hnone, before, after, hsplit, hbefore⟩ := List.find?_eq_some_iff_append.1 hmetrics
          refine .metric (readKey?_eq_some_iff.1 hkey) (readGroup_eq_ok_iff.1 hvalue) hsplit ?_
            (Option.isNone_iff_eq_none.1 hnone)
          intro m hm
          have hsome := hbefore m hm
          rwa [Bool.not_eq_true', Option.isNone_eq_false_iff] at hsome
        · cases h
  · intro h
    cases h with
    | key h =>
        have hnone : readKey? key = none :=
          Option.eq_none_iff_forall_ne_some.2 fun c hc => h c (readKey?_eq_some_iff.1 hc)
        rw [readEntry, hnone]
    | value hkey h =>
        rw [readEntry, readKey?_eq_some_iff.2 hkey]
        simp only [readGroup_eq_error_iff.2 h]
    | @metric _ _ _ stats before after metric hkey hvalue hmetrics hbefore h =>
        have hfind : w.metrics.find? (fun m => (stats.lookup m.field).isNone) = some metric := by
          rw [List.find?_eq_some_iff_append]
          refine ⟨Option.isNone_iff_eq_none.2 h, before, after, hmetrics, fun m hm => ?_⟩
          rw [Bool.not_eq_true', Option.isNone_eq_false_iff]
          exact hbefore m hm
        rw [readEntry, readKey?_eq_some_iff.2 hkey]
        simp only [readGroup_eq_ok_iff.2 hvalue, hfind]

/-! ## Documents -/

theorem readDocument_eq_ok_iff {w : Workload} {text : String} {b : Baseline} :
    readDocument w text = .ok b ↔ ∃ members, Json.parseObject? text.toList = some members ∧
      List.Forall₂ (Accepted w) members b.entries := by
  unfold readDocument
  cases Json.parseObject? text.toList with
  | none => simp
  | some members =>
      simp only [map_eq_ok_iff, mapM_eq_ok_iff, Option.some.injEq, exists_eq_left']
      constructor
      · rintro ⟨entries, hentries, rfl⟩
        exact hentries.imp fun _ _ => readEntry_eq_ok_iff.1
      · intro hentries
        exact ⟨b.entries, hentries.imp fun _ _ => readEntry_eq_ok_iff.2, rfl⟩

/-- **The first fault is the error**: all entries in front of it are accepted. -/
theorem readDocument_eq_error_iff {w : Workload} {text : String} {fault : Fault} :
    readDocument w text = .error fault ↔
      Json.parseObject? text.toList = none ∧ fault = .notAnObject ∨
      ∃ before m after, Json.parseObject? text.toList = some (before ++ m :: after) ∧
        (∀ n ∈ before, ∃ entry, Accepted w n entry) ∧ Faulty w m fault := by
  unfold readDocument
  cases Json.parseObject? text.toList with
  | none => simp [eq_comm]
  | some members =>
      simp only [map_eq_error_iff, mapM_eq_error_iff, readEntry_eq_ok_iff, readEntry_eq_error_iff,
        reduceCtorEq, false_and, false_or, Option.some.injEq]

theorem parse_eq_ok_iff {w : Workload} {path text : String} {b : Baseline} :
    parse w path text = .ok b ↔ ∃ members, Json.parseObject? text.toList = some members ∧
      List.Forall₂ (Accepted w) members b.entries :=
  mapError_eq_ok_iff.trans readDocument_eq_ok_iff

theorem parse_eq_error_iff {w : Workload} {path text : String} {error : Error} :
    parse w path text = .error error ↔ ∃ fault, error = .invalidBaseline path fault ∧
      (Json.parseObject? text.toList = none ∧ fault = .notAnObject ∨
        ∃ before m after, Json.parseObject? text.toList = some (before ++ m :: after) ∧
          (∀ n ∈ before, ∃ entry, Accepted w n entry) ∧ Faulty w m fault) := by
  rw [parse, mapError_eq_error_iff]
  constructor
  · rintro ⟨fault, hfault, rfl⟩
    exact ⟨fault, rfl, readDocument_eq_error_iff.1 hfault⟩
  · rintro ⟨fault, rfl, hfault⟩
    exact ⟨fault, readDocument_eq_error_iff.2 hfault, rfl⟩

end Baseline

end PerfGate
