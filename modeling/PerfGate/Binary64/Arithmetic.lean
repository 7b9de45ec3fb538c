import PerfGate.Binary64.Rounding

/-!
# Binary64 — arithmetic

Each operation computes the exact result in whole numbers and rounds it once. A sum of opposite
numbers is the positive zero; an operation without a value is NaN.
-/

namespace PerfGate

namespace Binary64

/-- The sum. -/
def add : Binary64 → Binary64 → Binary64
  | .nan, _ => .nan
  | _, .nan => .nan
  | .infinite s, .infinite t => if s = t then .infinite s else .nan
  | .infinite s, .finite .. => .infinite s
  | .finite .., .infinite t => .infinite t
  | .finite s m _, .finite t n _ =>
    let sum := signed s m + signed t n
    if sum = 0 then zero (s && t) else ofUnits (decide (sum < 0)) sum.natAbs 1

/-- The difference. -/
def sub (x y : Binary64) : Binary64 := add x (neg y)

/-- The product. Zero times infinity has no value. -/
def mul : Binary64 → Binary64 → Binary64
  | .nan, _ => .nan
  | _, .nan => .nan
  | .infinite s, .infinite t => .infinite (s != t)
  | .infinite s, .finite t n _ => if n = 0 then .nan else .infinite (s != t)
  | .finite s m _, .infinite t => if m = 0 then .nan else .infinite (s != t)
  | .finite s m _, .finite t n _ => ofUnits (s != t) (m * n) perOne

/-- The quotient. A number over zero is infinite, zero over zero has no value. -/
def div : Binary64 → Binary64 → Binary64
  | .nan, _ => .nan
  | _, .nan => .nan
  | .infinite _, .infinite _ => .nan
  | .infinite s, .finite t _ _ => .infinite (s != t)
  | .finite s _ _, .infinite t => zero (s != t)
  | .finite s m _, .finite t n _ =>
    if n = 0 then (if m = 0 then .nan else .infinite (s != t)) else ofRatio (s != t) m n

instance : Add Binary64 := ⟨add⟩
instance : Sub Binary64 := ⟨sub⟩
instance : Mul Binary64 := ⟨mul⟩
instance : Div Binary64 := ⟨div⟩

/-- The square root. A root has hundreds of binary places more than a double keeps, so it is enough
to round the whole part with a half unit added where the root is not whole. -/
def sqrt : Binary64 → Binary64
  | .nan => .nan
  | .infinite s => if s then .nan else .infinite false
  | .finite s n h =>
    if n = 0 then .finite s n h
    else if s then .nan
    else
      let square := n * perOne
      let root := square.sqrt
      ofUnits false (if root * root = square then 2 * root else 2 * root + 1) 2

/-- The whole part, with the fraction dropped. Only finite doubles have one. -/
def truncate? : Binary64 → Option Int
  | .finite s n _ => some (signed s (n / perOne))
  | _ => none

/-- The sum of a list from left to right. The empty sum is `-0.0`, which changes no other sum. -/
def sum (xs : List Binary64) : Binary64 := xs.foldl (· + ·) (zero true)

end Binary64

end PerfGate
