import PerfGate.Baseline.Store
import PerfGate.Finding
import PerfGate.Floor
import PerfGate.Grouping

/-!
# Assessment — the judgement of a run

Two checks feed one verdict: the means of each recorded configuration against their floors, and the
noise of each configuration that was run often enough. All findings are collected: the floors of
both workloads, then the noise of both. A run passes if nothing is found.
-/

namespace PerfGate

/-! ## Floors -/

namespace Grouping

/-- The drop of one metric of a group below its recorded mean, if there is one. A metric that was
not recorded has no floor. -/
def drop? (p : Policy) (group : Group) (entry : BaselineEntry) (m : Metric) : Option Finding :=
  match group.stats? m, entry.stats.lookup m.field with
  | some current, some recorded =>
    let check := FloorCheck.make current.mean recorded.mean (p.tolerance m.tolerance)
    match check.passed, check.floor? with
    | false, some floor =>
      some (.drop m entry.configuration check.current check.recorded floor check.tolerance)
    | _, _ => none
  | _, _ => none

/-- What is found when a recorded configuration is looked up in the current run. -/
def compareEntry (g : Grouping) (p : Policy) (entry : BaselineEntry) : List Finding :=
  match g.get? entry.configuration with
  | none => [.missing g.workload entry.configuration]
  | some group => g.workload.metrics.filterMap (drop? p group entry)

/-- What is found when the current run is held against its baseline. Configurations that were never
recorded are not compared. -/
def compare (g : Grouping) (p : Policy) (b : Baseline) : List Finding :=
  b.entries.flatMap (g.compareEntry p)

end Grouping

/-! ## Noise -/

namespace Group

/-- The noise of one metric of a group, if it is above the limit. -/
def noise? (g : Group) (p : Policy) (m : Metric) : Option Finding := do
  let variation ← (← g.stats? m).variation?
  if p.noiseLimit < variation then some (.noise m g.configuration variation p.noiseLimit) else none

/-- The noise of the metrics of a group. A group of few trials is exempt. -/
def noise (g : Group) (p : Policy) (metrics : List Metric) : List Finding :=
  if g.trials < p.minTrials then [] else metrics.filterMap (g.noise? p)

end Group

/-- The noise of all groups. -/
def Grouping.noise (g : Grouping) (p : Policy) : List Finding :=
  g.groups.flatMap fun group => group.noise p g.workload.metrics

/-! ## Verdict -/

/-- The judgement of a run. -/
structure Assessment where
  findings : List Finding
  /-- The number of recorded configurations that were compared. -/
  compared : Nat

namespace Assessment

/-- Judges a run by its groups in both workloads. A policy that makes no sense judges nothing. -/
def make (first second : Grouping) (b : Baselines) (p : Policy) : Except Error Assessment :=
  match p.fault? with
  | some fault => .error (.invalidPolicy fault)
  | none =>
    let firstBaseline := b.of first.workload
    let secondBaseline := b.of second.workload
    .ok {
      findings :=
        first.compare p firstBaseline ++ second.compare p secondBaseline ++ first.noise p ++
          second.noise p
      compared := firstBaseline.entries.length + secondBaseline.entries.length }

/-- Whether nothing was found. -/
def passes (a : Assessment) : Bool := a.findings.isEmpty

/-- The exit status that tells of the judgement. -/
def status (a : Assessment) : Nat := if a.passes then 0 else 2

/-- The report of what was found: a blank line, a heading, one line per finding. A run that passes
has none. -/
def report (a : Assessment) : String :=
  if a.passes then ""
  else
    "\nPERF REGRESSION DETECTED:\n" ++
      String.join (a.findings.map fun f => " -  " ++ f.shown ++ "\n")

end Assessment

end PerfGate
