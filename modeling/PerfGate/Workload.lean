/-!
# Workload — what is measured

The two benchmark workloads, the fields that a record of each has to carry, and the metrics that
are held against the baseline.
-/

namespace PerfGate

/-- The tolerance that a metric is compared under. -/
inductive ToleranceKind where
  | throughput
  | bandwidth
deriving DecidableEq

/-- A measured rate. -/
inductive Metric where
  | queries
  | bandwidth
  | updates
  | finalizes
deriving DecidableEq

namespace Metric

/-- The record field that holds a trial's value. -/
def field : Metric → String
  | .queries => "queries_per_sec"
  | .bandwidth => "eff_gb_per_sec"
  | .updates => "updates_per_sec"
  | .finalizes => "finalizes_per_sec"

/-- The name of a metric in findings. -/
def label : Metric → String
  | .queries => "AM qps"
  | .bandwidth => "AM gbps"
  | .updates => "Cluster updates"
  | .finalizes => "Cluster finalizes"

/-- The tolerance of a metric. Only the memory bandwidth has one of its own. -/
def tolerance : Metric → ToleranceKind
  | .bandwidth => .bandwidth
  | _ => .throughput

end Metric

/-- A benchmark workload: queries to an associative memory, or updates of a cluster index. -/
inductive Workload where
  | am
  | cluster
deriving DecidableEq

namespace Workload

/-- The name of a workload. -/
def tag : Workload → String
  | .am => "AM"
  | .cluster => "Cluster"

/-- The other workload. -/
def other : Workload → Workload
  | .am => .cluster
  | .cluster => .am

/-- The fields that a record of the workload carries. -/
def requiredFields : Workload → List String
  | .am =>
    ["name", "dim_bits", "capacity", "size", "iters", "secs", "queries_per_sec", "eff_gb_per_sec",
      "sample_index", "warmup_ms", "measure_ms"]
  | .cluster =>
    ["name", "dim_bits", "capacity", "updates", "update_iters", "update_secs", "updates_per_sec",
      "finalize_iters", "finalize_secs", "finalizes_per_sec", "sample_index", "warmup_ms",
      "measure_ms"]

/-- The field that gives the size of a configuration. -/
def sizeField : Workload → String
  | .am => "size"
  | .cluster => "updates"

/-- The metrics that are tracked, in the order of every report. -/
def metrics : Workload → List Metric
  | .am => [.queries, .bandwidth]
  | .cluster => [.updates, .finalizes]

/-- The name of the baseline document of a workload. -/
def baselineFile : Workload → String
  | .am => "am_bench.json"
  | .cluster => "cluster_bench.json"

end Workload

end PerfGate
