import PerfGate.Proofs.Baseline.Entries
import PerfGate.Proofs.Json.RoundTrip
import PerfGate.Proofs.Rows.Basic

/-!
# Configuration — texts and spellings

The text of a configuration spells that configuration, by itself and as a name in a document, where
it is escaped once more. What spells a configuration as an array spells the same one as the fields
of a record, and the text of the configuration stands for all its spellings
(`Configuration.text_roundTrip`).
-/

namespace PerfGate

theorem isInt64_of_natAbs_lt {i : Int} (h : i.natAbs < 1 <<< 63) : isInt64 i = true := by
  rw [isInt64, Bool.and_eq_true, decide_eq_true_eq, decide_eq_true_eq]
  omega

/-- However an integer is spelled, it has 64 bits. -/
theorem Field.isInt64_of_readInteger? {v : Json.Value} {i : Int}
    (h : Field.readInteger? v = some i) : isInt64 i = true := by
  unfold Field.readInteger? at h
  split at h
  · split at h
    · rename_i hi
      rw [← Option.some.inj h]
      exact hi
    · cases h
  · obtain ⟨-, hi⟩ := Option.filter_eq_some_iff.1 h
    exact isInt64_of_natAbs_lt (by simpa using hi)
  · exact (Option.filter_eq_some_iff.1 h).2
  · cases h

namespace Configuration

/-- A configuration whose sizes have 64 bits. -/
structure InRange (c : Configuration) : Prop where
  dimBits : isInt64 c.dimBits = true
  capacity : isInt64 c.capacity = true
  size : isInt64 c.size = true

/-! ## Arrays and records -/

section Spellings

variable {v : Json.Value} {w : Workload} {r : Record} {c : Configuration}

/-- The configuration of a record is in range. -/
theorem inRange_of_record (h : r.configuration? w = some c) : c.InRange := by
  obtain ⟨-, hdimBits, hcapacity, hsize⟩ := Record.configuration?_eq_some_iff.1 h
  obtain ⟨_, -, hdimBits⟩ := Option.bind_eq_some_iff.1 hdimBits
  obtain ⟨_, -, hcapacity⟩ := Option.bind_eq_some_iff.1 hcapacity
  obtain ⟨_, -, hsize⟩ := Option.bind_eq_some_iff.1 hsize
  exact ⟨Field.isInt64_of_readInteger? hdimBits, Field.isInt64_of_readInteger? hcapacity,
    Field.isInt64_of_readInteger? hsize⟩

/-- So is the configuration of an array. -/
theorem inRange_of_value (h : ofValue? v = some c) : c.InRange := by
  obtain ⟨_, _, _, _, -, -, hdimBits, hcapacity, hsize⟩ := ofValue?_eq_some_iff.1 h
  exact ⟨Field.isInt64_of_readInteger? hdimBits, Field.isInt64_of_readInteger? hcapacity,
    Field.isInt64_of_readInteger? hsize⟩

/-- **A record spells what the array of its key fields spells.** -/
theorem ofRecord_eq_ok_iff {name dimBits capacity size : Json.Value}
    (hname : r.get? "name" = some name) (hdimBits : r.get? "dim_bits" = some dimBits)
    (hcapacity : r.get? "capacity" = some capacity) (hsize : r.get? w.sizeField = some size) :
    ofRecord w r = .ok c ↔ ofValue? (.array [name, dimBits, capacity, size]) = some c := by
  have hfields := Record.configuration?_eq_some_iff (w := w) (r := r) (c := c)
  rw [Record.configuration?, toOption_eq_some_iff, hname, hdimBits, hcapacity, hsize] at hfields
  rw [hfields, ofValue?_eq_some_iff]
  simp only [Option.bind_some]
  constructor
  · exact fun h => ⟨name, dimBits, capacity, size, rfl, h⟩
  · rintro ⟨_, _, _, _, heq, h⟩
    cases heq
    exact h

end Spellings

/-! ## Texts -/

variable {c : Configuration}

/-- The array of a configuration spells that configuration. -/
theorem ofValue?_toValue (h : c.InRange) : ofValue? c.toValue = some c :=
  ofValue?_eq_some_iff.2 ⟨_, _, _, _, rfl, rfl, if_pos h.dimBits, if_pos h.capacity, if_pos h.size⟩

theorem rereads_toValue (h : c.InRange) (depth : Nat) :
    Json.Rereads (depth + 1) c.toValue c.toValue :=
  Json.rereads_array <| .cons (Json.rereads_string c.name) <|
    .cons (Json.rereads_integer h.dimBits) <| .cons (Json.rereads_integer h.capacity) <|
      .cons (Json.rereads_integer h.size) .nil

/-- The text of a configuration is read back. -/
theorem parse?_text (h : c.InRange) : (Json.parse? c.toValue.text).bind ofValue? = some c := by
  rw [Json.parse?_of_rereads (rereads_toValue h 126), Option.bind_some, ofValue?_toValue h]

end Configuration

/-! ## Names in documents -/

namespace Baseline

theorem readKey?_toText {c : Configuration} (h : c.InRange) :
    readKey? c.toValue.toText = some c := by
  rw [readKey?, Json.Value.toText, String.toList_ofList]
  exact Configuration.parse?_text h

/-- Wherever the text of a configuration is a name in a document, the entry is of that
configuration. -/
theorem configuration_of_name {w : Workload} {path text : String} {members : Json.Members}
    {b : Baseline} (hmembers : Json.parseObject? text.toList = some members)
    (hb : parse w path text = .ok b) :
    List.Forall₂ (fun m entry => ∀ c : Configuration, c.InRange → m.1 = c.toValue.toText →
      entry.configuration = c) members b.entries := by
  obtain ⟨members', hmembers', hentries⟩ := parse_eq_ok_iff.1 hb
  rw [hmembers] at hmembers'
  cases hmembers'
  refine hentries.imp fun m entry haccepted c hc hname => ?_
  have hkey := readKey?_eq_some_iff.2 haccepted.key
  rw [hname, readKey?_toText hc] at hkey
  exact (Option.some.inj hkey).symm

section Document

variable {α : Type} {xs : List α} {c : α → Configuration} {value reread : α → Json.Value}

/-- The texts of different configurations are different. -/
theorem nodup_names (hrange : ∀ x ∈ xs, (c x).InRange) (hnodup : (xs.map c).Nodup) :
    ((xs.map fun x => ((c x).toValue.toText, reread x)).map Prod.fst).Nodup := by
  -- equal texts would be read as equal configurations
  apply List.Nodup.of_map readKey?
  have hkeys : ((xs.map fun x => ((c x).toValue.toText, reread x)).map Prod.fst).map readKey? =
      (xs.map c).map some := by
    simp only [List.map_map, List.map_inj_left, Function.comp_apply]
    exact fun x hx => readKey?_toText (hrange x hx)
  rw [hkeys]
  exact hnodup.map (Option.some_injective _)

/-- The members of a document are read back, the names escaped and read once more. -/
theorem parseObject?_names (hrange : ∀ x ∈ xs, (c x).InRange) (hnodup : (xs.map c).Nodup)
    (h : ∀ x ∈ xs, Json.Rereads 126 (value x) (reread x)) :
    Json.parseObject?
        (Json.Value.object (xs.map fun x => ((c x).toValue.toText, value x))).toText.toList =
      some (xs.map fun x => ((c x).toValue.toText, reread x)) := by
  have hrereads : Json.Rereads Json.maxDepth
      (.object (xs.map fun x => ((c x).toValue.toText, value x)))
      (.object (xs.map fun x => ((c x).toValue.toText, reread x))) := by
    apply Json.rereads_object (nodup_names hrange hnodup)
    rw [List.forall₂_map_left_iff, List.forall₂_map_right_iff, List.forall₂_same]
    exact fun x hx => ⟨rfl, h x hx⟩
  rw [Json.Value.toText, String.toList_ofList, Json.parseObject?, Json.parse?_of_rereads hrereads]

end Document

/-- An entry of a document to be written: the value that is recorded for a configuration, and what
the text of the value is read as. -/
structure Row where
  configuration : Configuration
  value : Json.Value
  reread : Json.Value
  inRange : configuration.InRange
  rereads : Json.Rereads 126 value reread

/-- The document of rows. The name of each is the text of its configuration. -/
def documentOf (rows : List Row) : String :=
  (Json.Value.object (rows.map fun row => (row.configuration.toValue.toText, row.value))).toText

theorem parseObject?_documentOf {rows : List Row} (h : (rows.map Row.configuration).Nodup) :
    Json.parseObject? (documentOf rows).toList =
      some (rows.map fun row => (row.configuration.toValue.toText, row.reread)) :=
  parseObject?_names (fun row _ => row.inRange) h fun row _ => row.rereads

/-- **A document has an entry for each of its configurations**, if the values are those of
entries. -/
theorem parse_documentOf {w : Workload} {path : String} {rows : List Row}
    (h : (rows.map Row.configuration).Nodup) :
    ((∃ b, parse w path (documentOf rows) = .ok b) ↔ ∀ row ∈ rows, ∃ stats,
      Records row.reread stats ∧ ∀ m ∈ w.metrics, (stats.lookup m.field).isSome) ∧
    ∀ b, parse w path (documentOf rows) = .ok b →
      b.entries.map BaselineEntry.configuration = rows.map Row.configuration := by
  constructor
  · simp only [parse_eq_ok_iff, parseObject?_documentOf h, Option.some.injEq, exists_eq_left',
      List.forall₂_map_left_iff]
    have hentries : ∀ row : Row, (∃ entry, Accepted w
        (row.configuration.toValue.toText, row.reread) entry) ↔ ∃ stats,
          Records row.reread stats ∧ ∀ m ∈ w.metrics, (stats.lookup m.field).isSome := by
      intro row
      constructor
      · rintro ⟨entry, hentry⟩
        exact ⟨entry.stats, hentry.value, hentry.metrics⟩
      · rintro ⟨stats, hvalue, hmetrics⟩
        exact ⟨⟨row.configuration, stats⟩, readKey?_eq_some_iff.1 (readKey?_toText row.inRange),
          hvalue, hmetrics⟩
    simp only [← hentries, ← exists_forall₂_iff]
    exact ⟨fun ⟨b, hb⟩ => ⟨b.entries, hb⟩, fun ⟨entries, hentries⟩ => ⟨⟨entries⟩, hentries⟩⟩
  · intro b hb
    have hnames := configuration_of_name (parseObject?_documentOf h) hb
    rw [List.forall₂_map_left_iff] at hnames
    exact (map_eq_map_of_forall₂ (hnames.imp fun row entry hentry =>
      (hentry row.configuration row.inRange rfl).symm)).symm

end Baseline

namespace Configuration

/-! ## Texts and spellings -/

/-- **The text of a configuration spells that configuration**: alone, as a name in a document, where
it is escaped once more, and in place of any other spelling. A record with the four values of an
array has the configuration that the array spells. -/
theorem text_roundTrip :
    (∀ c : Configuration, c.InRange → (Json.parse? c.toValue.text).bind ofValue? = some c) ∧
    (∀ (w : Workload) (path text : String) (members : Json.Members) (b : Baseline),
      Json.parseObject? text.toList = some members → Baseline.parse w path text = .ok b →
        List.Forall₂ (fun m entry => ∀ c : Configuration, c.InRange → m.1 = c.toValue.toText →
          entry.configuration = c) members b.entries) ∧
    (∀ (w : Workload) (path : String) (rows : List Baseline.Row),
      (rows.map Baseline.Row.configuration).Nodup →
        ((∃ b, Baseline.parse w path (Baseline.documentOf rows) = .ok b) ↔
          ∀ row ∈ rows, ∃ stats, Baseline.Records row.reread stats ∧
            ∀ m ∈ w.metrics, (stats.lookup m.field).isSome) ∧
        ∀ b, Baseline.parse w path (Baseline.documentOf rows) = .ok b →
          b.entries.map BaselineEntry.configuration = rows.map Baseline.Row.configuration) ∧
    (∀ (v : Json.Value) (c : Configuration), ofValue? v = some c →
      (Json.parse? c.toValue.text).bind ofValue? = some c) ∧
    (∀ (w : Workload) (r : Record) (name dimBits capacity size : Json.Value),
      r.get? "name" = some name → r.get? "dim_bits" = some dimBits →
        r.get? "capacity" = some capacity → r.get? w.sizeField = some size →
          ∀ c, ofRecord w r = .ok c ↔
            ofValue? (.array [name, dimBits, capacity, size]) = some c) :=
  ⟨fun _ => parse?_text,
    fun _ _ _ _ _ => Baseline.configuration_of_name,
    fun _ _ _ => Baseline.parse_documentOf,
    fun _ _ h => parse?_text (inRange_of_value h),
    fun _ _ _ _ _ _ hname hdimBits hcapacity hsize _ =>
      ofRecord_eq_ok_iff hname hdimBits hcapacity hsize⟩

/-- A name that has to be escaped, and sizes at both ends of their range. -/
def escaping : Configuration := ⟨"a\"b\\c\n\x01é𝄞", -2 ^ 63, 2 ^ 63 - 1, 0⟩

theorem inRange_escaping : escaping.InRange := ⟨by decide, by decide, by decide⟩

/-- An entry for it, whose metrics have the lists of their summaries. -/
def escapingRow : Baseline.Row where
  configuration := escaping
  value := .object [("queries_per_sec", .array [.integer 3]), ("eff_gb_per_sec", .array [.integer 4])]
  reread := .object
    [("queries_per_sec", .array [.integer 3]), ("eff_gb_per_sec", .array [.integer 4])]
  inRange := inRange_escaping
  rereads := Json.rereads_object (by decide) <|
    .cons ⟨rfl, Json.rereads_array (.cons (Json.rereads_integer (by decide)) .nil)⟩ <|
      .cons ⟨rfl, Json.rereads_array (.cons (Json.rereads_integer (by decide)) .nil)⟩ .nil

/-- The configuration of `spelled`. -/
def plain : Configuration := ⟨"a", 256, 16, 10⟩

/-- A record whose sizes are spelled in three ways. -/
def spelled : Record where
  line := 1
  members := [("name", .string "a"), ("dim_bits", .integer 256),
    ("capacity", .real (.ofInt 16)), ("size", .string " +10 ")]

/-- An escaped name and three spellings of a size. -/
theorem text_roundTrip_escaping :
    (Json.parse? escaping.toValue.text).bind ofValue? = some escaping ∧
    (∃ b, Baseline.parse .am "am_bench.json" (Baseline.documentOf [escapingRow]) = .ok b ∧
      b.entries.map BaselineEntry.configuration = [escaping] ∧
      ∀ entry ∈ b.entries, entry.configuration = escaping) ∧
    (Json.parse? plain.toValue.text).bind ofValue? = some plain ∧
    ofRecord .am spelled = .ok plain := by
  obtain ⟨htext, hname, hdocument, hvalue, hrecord⟩ := text_roundTrip
  have hplain : ofValue? (.array [.string "a", .integer 256, .real (.ofInt 16), .string " +10 "]) =
      some plain := by decide +kernel
  refine ⟨htext escaping inRange_escaping, ?_, hvalue _ _ hplain, ?_⟩
  · have hnodup : ([escapingRow].map Baseline.Row.configuration).Nodup := List.nodup_singleton _
    obtain ⟨haccepted, hentries⟩ := hdocument .am "am_bench.json" [escapingRow] hnodup
    have hstats : ∀ v x, Baseline.readNumber v = .ok x →
        Baseline.readStats (.array [v]) = .ok ⟨x, .zero false, .zero false⟩ :=
      fun _ _ h => by simp [Baseline.readStats, h]
    obtain ⟨b, hb⟩ := haccepted.2 <| by
      simp only [List.forall_mem_singleton]
      exact ⟨[("queries_per_sec", ⟨.ofInt 3, .zero false, .zero false⟩),
        ("eff_gb_per_sec", ⟨.ofInt 4, .zero false, .zero false⟩)],
        ⟨_, rfl, .cons ⟨rfl, hstats _ _ rfl⟩ (.cons ⟨rfl, hstats _ _ rfl⟩ .nil)⟩, by
          simp [Workload.metrics, Metric.field, List.lookup_cons]⟩
    have hentry := hname .am _ _ _ b (Baseline.parseObject?_documentOf hnodup) hb
    rw [List.map_singleton, List.forall₂_cons_left_iff] at hentry
    obtain ⟨entry, _, hconfiguration, hrest, heq⟩ := hentry
    cases hrest
    refine ⟨b, hb, hentries b hb, ?_⟩
    rw [heq, List.forall_mem_singleton]
    exact hconfiguration escaping inRange_escaping rfl
  · refine (hrecord .am spelled _ _ _ _ ?_ ?_ ?_ ?_ plain).2 hplain <;>
      simp [spelled, Record.get?, Json.Members.get?_cons, Workload.sizeField]

end Configuration

end PerfGate
