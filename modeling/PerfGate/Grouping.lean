import PerfGate.Configuration
import PerfGate.Stats

/-!
# Grouping — trials by configuration

Each record of a workload is one trial. Trials of one configuration form a group; the groups stand
in the order in which their configurations first occur, and each keeps the summaries of its metrics.
An index tells where the group of a configuration stands. It is filled while the trials come in
(`SeriesTable.add`), and the groups keep it.
-/

namespace PerfGate

/-! ## Trials -/

/-- One trial: what was run, and the values of the metrics in the order of the workload. -/
structure Trial where
  configuration : Configuration
  values : List Binary64

/-- The trial that a record describes: first its configuration, then its metrics in order. -/
def Trial.ofRecord (w : Workload) (r : Record) : Except Error Trial := do
  let configuration ← Configuration.ofRecord w r
  let values ← w.metrics.mapM fun m => r.readField w .number Field.readNumber? m.field
  return { configuration, values }

/-! ## Series -/

/-- The trials of one configuration, in the order in which they came: a column of values for each
metric. -/
structure Series where
  configuration : Configuration
  columns : List (List Binary64)

namespace Series

/-- The series of a configuration before its first trial. -/
def opened (w : Workload) (c : Configuration) : Series := ⟨c, w.metrics.map fun _ => []⟩

/-- Adds the values of a trial, one at the end of each column. -/
def add (values : List Binary64) (s : Series) : Series :=
  { s with columns := s.columns.zipWith (fun column x => column ++ [x]) values }

/-- The number of trials. All columns are of one length. -/
def trials (s : Series) : Nat := (s.columns.head?.map List.length).getD 0

end Series

/-- The series of the trials that have come in. -/
structure SeriesTable where
  series : List Series
  /-- Where the series of a configuration stands. -/
  index : List (Configuration × Nat)

namespace SeriesTable

/-- Before the first trial. -/
def empty : SeriesTable := ⟨[], []⟩

/-- The place of the series of a configuration, which is opened at the end if there is none. -/
def place (w : Workload) (c : Configuration) (t : SeriesTable) : Nat × SeriesTable :=
  match t.index.lookup c with
  | some i => (i, t)
  | none => (t.series.length, ⟨t.series ++ [.opened w c], (c, t.series.length) :: t.index⟩)

/-- Adds a trial to the series of its configuration. -/
def add (w : Workload) (t : SeriesTable) (trial : Trial) : SeriesTable :=
  let (i, t) := t.place w trial.configuration
  { t with series := t.series.modify i (Series.add trial.values) }

/-- The series of a list of trials. -/
def ofTrials (w : Workload) (ts : List Trial) : SeriesTable := ts.foldl (add w) empty

end SeriesTable

/-! ## Groups -/

/-- The summary of all trials of one configuration. -/
structure Group where
  configuration : Configuration
  /-- The number of trials. -/
  trials : Nat
  /-- The summaries of the metrics, in the order of the workload. -/
  stats : List (Metric × Stats)

namespace Group

/-- The summary of a series. -/
def ofSeries (w : Workload) (s : Series) : Group where
  configuration := s.configuration
  trials := s.trials
  stats := w.metrics.zip (s.columns.map Stats.ofList)

/-- The summary of a metric. -/
def stats? (g : Group) (m : Metric) : Option Stats := g.stats.lookup m

end Group

/-- The groups of one workload. -/
structure Grouping where
  workload : Workload
  groups : List Group
  /-- Where the group of a configuration stands. -/
  index : List (Configuration × Nat)

namespace Grouping

/-- The groups of trials. -/
def ofTrials (w : Workload) (ts : List Trial) : Grouping :=
  let table := SeriesTable.ofTrials w ts
  ⟨w, table.series.map (Group.ofSeries w), table.index⟩

/-- The groups of the records of a workload, up to the first record that is no trial. -/
def ofRecords (w : Workload) (rs : List Record) : Except Error Grouping :=
  (rs.mapM (Trial.ofRecord w)).map (ofTrials w)

/-- The group of a configuration, looked up in the index. -/
def get? (g : Grouping) (c : Configuration) : Option Group :=
  (g.index.lookup c).bind fun i => g.groups[i]?

/-- The number of trials of a configuration: none if it has no group. -/
def trialCount (g : Grouping) (c : Configuration) : Nat := ((g.get? c).map (·.trials)).getD 0

end Grouping

end PerfGate
