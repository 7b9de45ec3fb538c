import PerfGate.Binary64.Arithmetic
import PerfGate.Decimal.Numeral

/-!
# Json — numbers

The numbers of a JSON text are read quickly rather than exactly. A numeral without point and
exponent is an integer as far as it fits 64 bits (`Numeral.integer?`). Any other becomes a double:
as many digits as fit 64 bits are rounded to a double, which is then scaled by a power of ten and
rounded again (`Numeral.scan?`). The result can miss the nearest double (`Numeral.nearest`) by a
step.
-/

namespace PerfGate.Numeral

/-- The double nearest to a power of ten. -/
def tenTo (k : Nat) : Binary64 := .ofRatio false (Decimal.powerOfTen k) 1

/-- Appends digits to a significand as long as it stays below `2 ^ 64`, and counts those kept. -/
def keepDigits (significand : Nat) : List Char → Nat × Nat
  | [] => (significand, 0)
  | c :: rest =>
    let next := significand * 10 + (c.toNat - '0'.toNat)
    if next < 1 <<< 64 then
      let (kept, count) := keepDigits next rest
      (kept, count + 1)
    else (significand, 0)

/-- A double times a power of ten, by one multiplication or division as long as the power is itself
a double. A larger negative power is taken off in steps; a larger positive one has no result unless
the double is zero. -/
def scale? (x : Binary64) (exponent : Int) : Option Binary64 :=
  if 308 < exponent.natAbs then
    if x = .zero false then some x
    else if 0 ≤ exponent then none
    else scale? (x / tenTo 308) (exponent + 308)
  else if exponent < 0 then some (x / tenTo exponent.natAbs)
  else
    let y := x * tenTo exponent.natAbs
    if y.isFinite then some y else none
termination_by exponent.natAbs

/-- The double that a numeral is read as: the digits that fit 64 bits, rounded to a double, times
the power of ten that is left, rounded again. Each whole digit that does not fit raises the power;
fraction digits that do not fit are dropped. -/
def scan? (n : Numeral) : Option Binary64 :=
  let (significand, keptWhole) := keepDigits 0 n.whole
  let (significand, keptFraction) := keepDigits significand (n.fraction?.getD [])
  let exponent : Int := n.exponent?.getD 0 + (n.whole.length - keptWhole : Nat) - keptFraction
  (scale? (.ofNat significand) exponent).map fun x => if n.negative then -x else x

/-- The integer that a numeral without point and exponent is, if it fits: up to `2 ^ 64 - 1` above
zero, down to `-2 ^ 63` below. The negative zero is no integer. -/
def integer? (n : Numeral) : Option Int :=
  if n.fraction? = none ∧ n.exponent? = none then
    let i := Nat.ofDigitChars 10 n.whole 0
    if n.negative then (if 0 < i ∧ i ≤ 1 <<< 63 then some (-(i : Int)) else none)
    else if i < 1 <<< 64 then some (i : Int) else none
  else none

end PerfGate.Numeral
