import PerfGate.Decimal.Shortest

/-!
# Decimal — laying out digits

How a double is spelled once its shortest digits are known: where the point goes, when an exponent
is written, and what a whole number ends in. Each report that writes doubles has a `Layout` of its
own.
-/

namespace PerfGate

namespace Decimal

/-- The spelling of doubles in one kind of text. -/
structure Layout where
  /-- Which of two equally near decimals is written. -/
  tie : Tie
  /-- Whether a number whose first digit stands for this power of ten is written without exponent. -/
  positional : Int → Bool
  /-- Whether a whole number without exponent ends in `.0`. -/
  pointZero : Bool
  /-- Whether an exponent that is not negative has a plus sign. -/
  plus : Bool

namespace Layout

/-- Digits with the point in its place, zeros filling what the digits leave open. -/
def positionalText (l : Layout) (digits : List Char) (exponent : Int) : List Char :=
  let lead := (digits.length : Int) - 1 + exponent
  if 0 ≤ exponent then
    digits ++ List.replicate exponent.natAbs '0' ++ (if l.pointZero then ['.', '0'] else [])
  else if 0 ≤ lead then
    digits.take (lead.natAbs + 1) ++ '.' :: digits.drop (lead.natAbs + 1)
  else
    '0' :: '.' :: List.replicate (lead.natAbs - 1) '0' ++ digits

/-- One digit, the others after a point, and the exponent of the first. -/
def scientificText (l : Layout) (digits : List Char) (exponent : Int) : List Char :=
  let lead := (digits.length : Int) - 1 + exponent
  let fraction := if digits.length = 1 then [] else '.' :: digits.drop 1
  let sign := if lead < 0 then ['-'] else if l.plus then ['+'] else []
  digits.take 1 ++ fraction ++ 'e' :: sign ++ Nat.toDigits 10 lead.natAbs

/-- The text of a magnitude. -/
def magnitudeText (l : Layout) (units : Nat) : List Char :=
  let d := shortest l.tie units
  let digits := Nat.toDigits 10 d.significand
  if l.positional ((digits.length : Int) - 1 + d.exponent) then l.positionalText digits d.exponent
  else l.scientificText digits d.exponent

/-- The text of a double. -/
def text (l : Layout) : Binary64 → List Char
  | .nan => "NaN".toList
  | .infinite s => (if s then ['-'] else []) ++ "inf".toList
  | .finite s n _ => (if s then ['-'] else []) ++ l.magnitudeText n

end Layout

/-- The text of a double with a fixed number of places after the point, rounded from its exact
value, a tie going to the even digit. The sign stays when all digits are zero. -/
def fixedText (places : Nat) : Binary64 → List Char
  | .nan => "NaN".toList
  | .infinite s => (if s then ['-'] else []) ++ "inf".toList
  | .finite s n _ =>
    let scaled := roundDiv (n * powerOfTen places) Binary64.perOne
    let fraction := Nat.toDigits 10 (scaled % powerOfTen places)
    (if s then ['-'] else []) ++ Nat.toDigits 10 (scaled / powerOfTen places) ++
      '.' :: List.replicate (places - fraction.length) '0' ++ fraction

end Decimal

end PerfGate
