import PerfGate.Decimal.Basic

/-!
# Decimal — numerals

A numeral is a decimal as it is written: sign, digits before and after the point, exponent.
`Numeral.read?` accepts the liberal form used in log fields and options, where a plus sign, a bare
point and the names of the special values are allowed, and `readDouble?` gives the nearest double.
`readInteger?` accepts whole numbers of 64 bits.
-/

namespace PerfGate

/-- A written decimal. -/
structure Numeral where
  negative : Bool
  whole : List Char
  fraction? : Option (List Char)
  exponent? : Option Int
deriving DecidableEq

namespace Numeral

/-- The decimal that a numeral denotes, without its sign. -/
def magnitude (n : Numeral) : Decimal :=
  let fraction := n.fraction?.getD []
  { significand := Nat.ofDigitChars 10 (n.whole ++ fraction) 0
    exponent := n.exponent?.getD 0 - fraction.length }

/-- The double nearest to a numeral. -/
def nearest (n : Numeral) : Binary64 := n.magnitude.nearest n.negative

/-- A sign and what follows it. A text without sign is positive. -/
def splitSign : List Char → Bool × List Char
  | '+' :: r => (false, r)
  | '-' :: r => (true, r)
  | r => (false, r)

/-- The whole number spelled by a sign and at least one digit, and nothing else. -/
def readWhole? (s : List Char) : Option Int :=
  let (negative, digits) := splitSign s
  if digits ≠ [] ∧ digits.all Char.isDigit then
    let n : Int := Nat.ofDigitChars 10 digits 0
    some (if negative then -n else n)
  else none

/-- The exponent that ends a numeral: nothing, or the letter and a whole number. -/
def readExponent? : List Char → Option (Option Int)
  | [] => some none
  | c :: r => if c = 'e' ∨ c = 'E' then (readWhole? r).map some else none

/-- A numeral in the liberal form: digits on at least one side of an optional point. -/
def read? (s : List Char) : Option Numeral :=
  let (negative, r) := splitSign s
  let whole := r.takeWhile Char.isDigit
  let (fraction?, rest) : Option (List Char) × List Char :=
    match r.dropWhile Char.isDigit with
    | '.' :: t => (some (t.takeWhile Char.isDigit), t.dropWhile Char.isDigit)
    | t => (none, t)
  if whole = [] ∧ fraction?.getD [] = [] then none
  else (readExponent? rest).map (⟨negative, whole, fraction?, ·⟩)

end Numeral

/-- The double spelled by a text: a numeral, or the name of an infinity or of NaN in any case. -/
def readDouble? (s : List Char) : Option Binary64 :=
  let (negative, r) := Numeral.splitSign s
  let name := String.ofList (r.map Char.toLower)
  if name = "inf" ∨ name = "infinity" then some (.infinite negative)
  else if name = "nan" then some .nan
  else (Numeral.read? s).map Numeral.nearest

/-- The integers of 64 bits with a sign. -/
def isInt64 (i : Int) : Bool := -((1 <<< 63 : Nat) : Int) ≤ i && i < (1 <<< 63 : Nat)

/-- The 64-bit integer spelled by a text. -/
def readInt64? (s : List Char) : Option Int := (Numeral.readWhole? s).filter isInt64

end PerfGate
