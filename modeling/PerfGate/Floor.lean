import PerfGate.Binary64.Arithmetic

/-!
# Floor — how far a mean may drop

A current mean is held against the recorded one less the tolerated share. The floor itself still
passes. A recorded mean that is not positive gives no floor, and everything passes.
-/

namespace PerfGate

/-- A current mean held against a recorded one. -/
structure FloorCheck where
  current : Binary64
  recorded : Binary64
  /-- The least mean that passes. -/
  floor? : Option Binary64
  tolerance : Binary64
  passed : Bool

namespace FloorCheck

/-- The least mean that passes under a tolerance in percent. -/
def floorOf (recorded tolerance : Binary64) : Binary64 :=
  recorded * (.ofNat 1 - tolerance / .ofNat 100)

/-- Holds `current` against `recorded`. -/
def make (current recorded tolerance : Binary64) : FloorCheck :=
  if recorded ≤ .zero false then ⟨current, recorded, none, tolerance, true⟩
  else
    let floor := floorOf recorded tolerance
    ⟨current, recorded, some floor, tolerance, decide (floor ≤ current)⟩

end FloorCheck

end PerfGate
