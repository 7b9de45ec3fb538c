import PerfGate.Decimal.Basic

/-!
# Decimal — the fewest digits that read back

A finite double is written with as few significant digits as still round back to it, and of the
decimals with that many digits with the nearest one. Every decimal that rounds to the double lies
between the midpoints to its two neighbours; the grids of powers of ten are tried from the coarsest
to the finest, and the first with a point between the midpoints wins.
-/

namespace PerfGate

namespace Decimal

/-- Which of two equally near decimals is written. -/
inductive Tie where
  | even
  | up
deriving DecidableEq

/-- The point of the grid of multiples of `10 ^ exponent` that is nearest to `units` among those that
round to it. All lengths are in quarters of a unit, in which the midpoints are whole. A midpoint
itself rounds to the double whose significand is even. -/
def onGrid? (tie : Tie) (units : Nat) (exponent : Int) : Option Nat :=
  let step := Binary64.spacing units
  let scale := if exponent < 0 then powerOfTen exponent.natAbs else 1
  let cell := 4 * Binary64.perOne * (if exponent < 0 then 1 else powerOfTen exponent.natAbs)
  let value := 4 * units * scale
  let gapBelow := if 1 < step ∧ units = 1 <<< units.log2 then step else 2 * step
  let low := (4 * units - gapBelow) * scale
  let high := (4 * units + 2 * step) * scale
  let closed := units / step % 2 = 0
  let inside (point : Nat) : Bool :=
    if closed then low ≤ point * cell && point * cell ≤ high
    else low < point * cell && point * cell < high
  let below := value / cell
  let rest := value % cell
  let preferBelow := match tie with
    | .even => decide (2 * rest < cell ∨ 2 * rest = cell ∧ below % 2 = 0)
    | .up => decide (2 * rest < cell)
  if inside below && (preferBelow || !inside (below + 1)) then some below
  else if inside (below + 1) then some (below + 1)
  else none

/-- An exponent whose power of ten is above the magnitude. Three decimal digits weigh less than ten
binary ones. -/
def ceiling (units : Nat) : Int := ((units.log2 : Int) - 1073) * 30103 / 100000 + 1

/-- The shortest decimal that rounds to `units`, and the nearest of these. Seventeen digits always
suffice, so the grids tried reach past the answer. -/
def shortest (tie : Tie) (units : Nat) : Decimal :=
  if units = 0 then ⟨0, 0⟩
  else
    let candidate (i : Nat) : Option Decimal :=
      (onGrid? tie units (ceiling units - i)).map (⟨·, ceiling units - i⟩)
    ((List.range 21).findSome? candidate).getD ⟨0, 0⟩

end Decimal

end PerfGate
