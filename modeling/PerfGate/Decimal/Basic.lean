import PerfGate.Binary64.Rounding

/-!
# Decimal — a significand and a power of ten

The decimals that are written and read: a natural number times a power of ten. The double nearest
to a decimal is found by exact division and one rounding (`Decimal.nearest`), so a text of any
length and exponent is read to the last bit.
-/

namespace PerfGate

/-- The decimal `significand * 10 ^ exponent`. -/
structure Decimal where
  significand : Nat
  exponent : Int
deriving DecidableEq

namespace Decimal

/-- A power of ten. -/
def powerOfTen (k : Nat) : Nat := Nat.pow 10 k

/-- The double nearest to a decimal, a tie going to the even one. An exponent beyond 400 is above
every double, and one that outweighs the significand by 400 places is below all but zero; in
between the quotient is formed exactly. -/
def nearest (negative : Bool) (d : Decimal) : Binary64 :=
  if d.significand = 0 then Binary64.zero negative
  else if 400 < d.exponent then .infinite negative
  else if d.exponent + d.significand.log2 < -401 then Binary64.zero negative
  else if d.exponent < 0 then Binary64.ofRatio negative d.significand (powerOfTen d.exponent.natAbs)
  else Binary64.ofRatio negative (d.significand * powerOfTen d.exponent.natAbs) 1

end Decimal

end PerfGate
