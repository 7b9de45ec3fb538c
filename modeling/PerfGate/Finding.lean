import PerfGate.Configuration
import PerfGate.Decimal.Layout

/-!
# Finding — what the gate holds against a run

A configuration that was not run, a mean below its floor, or trials that disagree too much. A
finding is shown as one line.
-/

namespace PerfGate

/-- One violation of the policy. -/
inductive Finding where
  /-- A recorded configuration has no trials. -/
  | missing (workload : Workload) (configuration : Configuration)
  /-- A mean is below its floor. -/
  | drop (metric : Metric) (configuration : Configuration)
      (current recorded floor tolerance : Binary64)
  /-- The ratio of deviation to mean is above its limit. -/
  | noise (metric : Metric) (configuration : Configuration) (variation limit : Binary64)

namespace Finding

/-- The configuration that a finding is about. -/
def configuration : Finding → Configuration
  | .missing _ c => c
  | .drop _ c .. => c
  | .noise _ c .. => c

/-- Tolerances in findings have an exponent below `0.0001` and from `10 ^ 16` on. -/
def percentLayout : Decimal.Layout where
  tie := .up
  positional lead := decide (-4 ≤ lead ∧ lead < 16)
  pointZero := true
  plus := false

/-- A number with a fixed number of places. -/
def fixed (places : Nat) (x : Binary64) : String := String.ofList (Decimal.fixedText places x)

/-- The line that shows a finding. -/
def shown : Finding → String
  | .missing w c => "Missing " ++ w.tag ++ " group in current run: " ++ c.shown
  | .drop m c current recorded floor tolerance =>
    m.label ++ ": current=" ++ fixed 2 current ++ ", baseline=" ++ fixed 2 recorded ++
      ", allowed>= " ++ fixed 2 floor ++ " (tol=" ++ String.ofList (percentLayout.text tolerance) ++
      "%) key=" ++ c.shown
  | .noise m c variation limit =>
    m.label ++ " variance too high: stdev/mean=" ++ fixed 3 variation ++ " > " ++ fixed 3 limit ++
      " key=" ++ c.shown

end Finding

end PerfGate
