import PerfGate.Grouping
import PerfGate.Provenance

/-!
# Report — the summary on the console and the artifact

Both list every group of every workload, one JSON object per line. The console has a banner before
each workload; the artifact names the workload and the provenance on each line instead.
-/

namespace PerfGate

namespace Group

/-- The members for the metrics of a group. -/
def metricMembers (g : Group) : Json.Members := g.stats.map fun (m, s) => (m.field, s.toValue)

/-- The members that both reports share: configuration and metrics. -/
def members (g : Group) : Json.Members := ("key", g.configuration.toValue) :: g.metricMembers

/-- The line of a group on the console. -/
def summaryLine (g : Group) : String := (Json.Value.object g.members).toText

/-- The line of a group in the artifact. -/
def artifactLine (w : Workload) (p : Provenance) (g : Group) : String :=
  (Json.Value.object (("kind", .string w.tag) :: g.members ++ p.members)).toText

end Group

namespace Report

/-- The summary of one workload. -/
def workloadSummary (g : Grouping) : String :=
  "=== Aggregates (" ++ g.workload.tag ++ ") ===\n" ++
    String.join (g.groups.map fun group => group.summaryLine ++ "\n")

/-- The summary of several workloads. -/
def summary (gs : List Grouping) : String := String.join (gs.map workloadSummary)

/-- The artifact of several workloads. -/
def artifact (p : Provenance) (gs : List Grouping) : String :=
  String.join (gs.map fun g => String.join (g.groups.map fun group =>
    group.artifactLine g.workload p ++ "\n"))

end Report

end PerfGate
