import PerfGate.Assessment
import PerfGate.Attribution
import PerfGate.Options.Basic
import PerfGate.Report
import PerfGate.Run.Stage

/-!
# Run — from files to a judgement

A run reads both logs, groups their trials, reads the baselines and judges. The first stage that
fails ends it (`Run.judge`). Files are taken from a function, so the same run works on a disk and on
a tree of files. What a judged run prints and writes is a function of the judgement.
-/

namespace PerfGate

/-- The records of a log file. -/
def Log.load (read : FileReader) (path : String) : Except Error (List Record) :=
  match read path with
  | .error fault => .error (.unreadable path fault)
  | .ok bytes => Log.read path bytes

/-- The groups of a run and their judgement. -/
structure Judgement where
  am : Grouping
  cluster : Grouping
  assessment : Assessment

namespace Run

/-- The records of a workload in a log file. -/
def loadWorkload (read : FileReader) (path : String) (w : Workload) :
    Except Abort (List Record) := do
  let records ← (Stage.load w).mark (Log.load read path)
  let rows ← (Stage.select w).mark (w.select records)
  (w.require rows).mapError fun cause => ⟨none, cause⟩
  return rows

/-- Judges the run that the options describe. Files are taken from `read`. -/
def judge (read : FileReader) (o : Options) : Except Abort Judgement := do
  let amRows ← loadWorkload read o.am .am
  let clusterRows ← loadWorkload read o.cluster .cluster
  let am ← (Stage.group .am).mark (Grouping.ofRecords .am amRows)
  let cluster ← (Stage.group .cluster).mark (Grouping.ofRecords .cluster clusterRows)
  let baselines ← (Stage.baseline o.os).mark (Baselines.read read o.baselineDir o.os)
  let assessment ← (Assessment.make am cluster baselines o.policy).mapError fun cause =>
    ⟨none, cause⟩
  return { am, cluster, assessment }

/-- The provenance of the run. -/
def provenance (read : FileReader) (environment : String → Option String) (o : Options) :
    Provenance :=
  Provenance.collect environment (read.text o.cmakeCache).toOption

/-- The files that a run may read. -/
def inputs (o : Options) : List String :=
  let dir := Baselines.directory o.baselineDir o.os
  [o.am, o.cluster, Path.join dir Workload.am.baselineFile,
    Path.join dir Workload.cluster.baselineFile, o.cmakeCache]

end Run

namespace Judgement

/-- What the run prints. -/
def output (j : Judgement) : String := Report.summary [j.am, j.cluster] ++ j.assessment.report

/-- The artifact of the run. -/
def artifact (j : Judgement) (p : Provenance) : String := Report.artifact p [j.am, j.cluster]

end Judgement

end PerfGate
