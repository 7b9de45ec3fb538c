import PerfGate.Decimal.Layout
import PerfGate.Workload

/-!
# Policy — what the gate demands

A policy says how far a mean may drop below its baseline, in percent, and how far the trials of one
configuration may spread. `Policy.fault?` finds the first value that makes no sense.
-/

namespace PerfGate

/-- The kind of machine that trials ran on, as far as their noise depends on it. -/
inductive RunnerKind where
  | linux
  | macos
  | other
deriving DecidableEq

namespace RunnerKind

/-- The kind named by a runner identifier in any case. Only these names are known: other versions
of a system count as unknown systems. -/
def ofIdentifier (os : String) : RunnerKind :=
  let name := os.map Char.toLower
  if name = "ubuntu-latest" ∨ name = "linux" then .linux
  else if name = "macos-14" ∨ name = "macos" ∨ name = "macos-latest" then .macos
  else .other

/-- The largest ratio of deviation to mean that is accepted on such a machine. -/
def noiseLimit : RunnerKind → Binary64
  | .linux => .ofRatio false 1 10
  | .macos => .ofRatio false 1 5
  | .other => .ofRatio false 1 4

end RunnerKind

/-- The demands of one run of the gate. -/
structure Policy where
  /-- The accepted drop of a throughput, in percent. -/
  throughputTolerance : Binary64
  /-- The accepted drop of a bandwidth, in percent. -/
  bandwidthTolerance : Binary64
  /-- The largest accepted ratio of deviation to mean. -/
  noiseLimit : Binary64
  /-- Groups with fewer trials are exempt from the noise limit. -/
  minTrials : Nat

namespace Policy

/-- The demands when nothing else is said: drops of ten percent, and an unknown machine. -/
def standard : Policy where
  throughputTolerance := .ofNat 10
  bandwidthTolerance := .ofNat 10
  noiseLimit := RunnerKind.other.noiseLimit
  minTrials := 3

/-- The demands on a run on the given machine under the given tolerances. -/
def forRunner (os : String) (throughput bandwidth : Binary64) : Policy :=
  { standard with
    throughputTolerance := throughput
    bandwidthTolerance := bandwidth
    noiseLimit := (RunnerKind.ofIdentifier os).noiseLimit }

/-- The accepted drop for a kind of metric. -/
def tolerance (p : Policy) : ToleranceKind → Binary64
  | .throughput => p.throughputTolerance
  | .bandwidth => p.bandwidthTolerance

/-! ## Validity -/

/-- Why a policy makes no sense. -/
inductive Fault where
  | throughputTolerance (value : Binary64)
  | bandwidthTolerance (value : Binary64)
  | noiseLimit (value : Binary64)
  | minTrials (value : Nat)

/-- Numbers in messages about a policy are never written with an exponent, and whole ones without a
point. -/
def numberLayout : Decimal.Layout where
  tie := .up
  positional _ := true
  pointZero := false
  plus := false

/-- The message of a fault. -/
def Fault.message : Fault → String
  | .throughputTolerance x =>
    "tol-qps must be a non-negative percentage, got " ++ String.ofList (numberLayout.text x)
  | .bandwidthTolerance x =>
    "tol-gbps must be a non-negative percentage, got " ++ String.ofList (numberLayout.text x)
  | .noiseLimit x => "variance_threshold must be positive, got " ++ String.ofList (numberLayout.text x)
  | .minTrials n => "min_variance_trials must be >= 2, got " ++ toString n

/-- A percentage that can be accepted: finite and not below zero. -/
def isPercentage (x : Binary64) : Bool := x.isFinite && !decide (x < .zero false)

/-- The first value that makes no sense. -/
def fault? (p : Policy) : Option Fault :=
  if !isPercentage p.throughputTolerance then some (.throughputTolerance p.throughputTolerance)
  else if !isPercentage p.bandwidthTolerance then some (.bandwidthTolerance p.bandwidthTolerance)
  else if !(p.noiseLimit.isFinite && decide (.zero false < p.noiseLimit)) then
    some (.noiseLimit p.noiseLimit)
  else if p.minTrials < 2 then some (.minTrials p.minTrials)
  else none

end Policy

end PerfGate
