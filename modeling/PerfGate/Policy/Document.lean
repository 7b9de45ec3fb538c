import PerfGate.Json.Printer
import PerfGate.Policy.Basic

/-!
# Policy — documents

A policy can be read from a JSON document and written to one. Reading is strict about the four
values and passes over everything else: other members only have to be well-formed JSON, however
deep, large or odd they are.
-/

namespace PerfGate.Policy

open Json

/-- The values of a policy document, as far as they have been read. -/
structure Draft where
  throughputTolerance : Option Binary64 := none
  bandwidthTolerance : Option Binary64 := none
  noiseLimit : Option Binary64 := none
  minTrials : Option Nat := none

/-- The number written in a document. -/
def readNumber? (w : Written) : Option Binary64 := w.value?.bind Value.toDouble?

/-- The count written in a document. -/
def readCount? (w : Written) : Option Nat :=
  match w.value? with
  | some (.integer i) => if 0 ≤ i then some i.toNat else none
  | _ => none

/-- Adds one member of a document. A value may not be given twice; members that are no part of a
policy are passed over, whatever they hold. -/
def Draft.add? (d : Draft) (name : String) (w : Written) : Option Draft :=
  if name = "tol_qps_pct" then
    if d.throughputTolerance.isSome then none
    else (readNumber? w).map fun x => { d with throughputTolerance := some x }
  else if name = "tol_gbps_pct" then
    if d.bandwidthTolerance.isSome then none
    else (readNumber? w).map fun x => { d with bandwidthTolerance := some x }
  else if name = "variance_threshold" then
    if d.noiseLimit.isSome then none
    else (readNumber? w).map fun x => { d with noiseLimit := some x }
  else if name = "min_variance_trials" then
    if d.minTrials.isSome then none
    else (readCount? w).map fun n => { d with minTrials := some n }
  else some d

/-- The policy once all values are there. -/
def Draft.complete? (d : Draft) : Option Policy := do
  let throughputTolerance ← d.throughputTolerance
  let bandwidthTolerance ← d.bandwidthTolerance
  let noiseLimit ← d.noiseLimit
  let minTrials ← d.minTrials
  return { throughputTolerance, bandwidthTolerance, noiseLimit, minTrials }

/-- The policy that a document holds: an object with all four values in any order, or an array of
exactly these four. -/
def parse? (text : String) : Option Policy :=
  let s := text.toList
  match Written.read? s.length s with
  | some (.object members) =>
    (members.foldlM (fun d (pieces, w) => (pieceString? pieces).bind (Draft.add? d · w)) {}).bind
      Draft.complete?
  | some (.array [throughput, bandwidth, noise, trials]) => do
    let throughputTolerance ← readNumber? throughput
    let bandwidthTolerance ← readNumber? bandwidth
    let noiseLimit ← readNumber? noise
    let minTrials ← readCount? trials
    return { throughputTolerance, bandwidthTolerance, noiseLimit, minTrials }
  | _ => none

/-- A policy as a JSON object. -/
def toValue (p : Policy) : Value :=
  .object
    [("tol_qps_pct", .real p.throughputTolerance), ("tol_gbps_pct", .real p.bandwidthTolerance),
      ("variance_threshold", .real p.noiseLimit), ("min_variance_trials", .integer p.minTrials)]

end PerfGate.Policy
