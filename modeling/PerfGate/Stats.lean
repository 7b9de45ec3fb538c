import PerfGate.Binary64.Arithmetic
import PerfGate.Json.Printer

/-!
# Stats — the summary of repeated measurements

Mean, median and population standard deviation. A group holds every trial there is, not a sample,
so the divisor of the variance is the number of trials.
-/

namespace PerfGate

/-- The summary of a list of measurements. -/
structure Stats where
  mean : Binary64
  median : Binary64
  stdev : Binary64
deriving DecidableEq

namespace Stats

/-- The mean, summed from left to right. -/
def meanOf (xs : List Binary64) : Binary64 :=
  if xs.isEmpty then .zero false else Binary64.sum xs / .ofNat xs.length

/-- The list in ascending order. -/
def sorted (xs : List Binary64) : List Binary64 :=
  xs.mergeSort fun x y => decide (x.rank ≤ y.rank)

/-- The middle value, or half the sum of the middle two. -/
def medianOf (xs : List Binary64) : Binary64 :=
  let ys := sorted xs
  let half := ys.length / 2
  let value (i : Nat) : Binary64 := ys[i]?.getD (.zero false)
  if ys.isEmpty then .zero false
  else if ys.length % 2 = 1 then value half
  else .ofRatio false 1 2 * (value (half - 1) + value half)

/-- The square root of the mean squared distance from the mean. -/
def stdevOf (xs : List Binary64) : Binary64 :=
  if xs.isEmpty then .zero false
  else
    let mean := meanOf xs
    (Binary64.sum (xs.map fun x => (x - mean) * (x - mean)) / .ofNat xs.length).sqrt

/-- The summary of measurements. That of none is all zeros. -/
def ofList (xs : List Binary64) : Stats := ⟨meanOf xs, medianOf xs, stdevOf xs⟩

/-- The ratio of deviation to mean. It says nothing unless the mean is positive. -/
def variation? (s : Stats) : Option Binary64 :=
  if .zero false < s.mean then some (s.stdev / s.mean) else none

/-- A summary as a JSON object. -/
def toValue (s : Stats) : Json.Value :=
  .object [("mean", .real s.mean), ("median", .real s.median), ("stdev", .real s.stdev)]

end Stats

end PerfGate
