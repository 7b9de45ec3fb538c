/-!
# Text — UTF-16

Characters beyond U+FFFF are written as a high and a low surrogate. Decoding is strict: a surrogate
that stands alone, or a pair in the wrong order, is no text.
-/

namespace PerfGate.Text.Utf16

/-- The first unit of a pair. -/
def isHigh (u : Nat) : Bool := 0xd800 ≤ u && u < 0xdc00

/-- The second unit of a pair. -/
def isLow (u : Nat) : Bool := 0xdc00 ≤ u && u < 0xe000

/-- The character written as a pair. -/
def pair (high low : Nat) : Char := Char.ofNat (0x10000 + (high - 0xd800) * 0x400 + (low - 0xdc00))

/-- The characters that a list of units spells. -/
def decode? : List Nat → Option (List Char)
  | [] => some []
  | u :: rest =>
    if isHigh u then
      match rest with
      | v :: rest' => if isLow v then (decode? rest').map (pair u v :: ·) else none
      | [] => none
    else if isLow u then none
    else (decode? rest).map (Char.ofNat u :: ·)

/-- The units of one character. -/
def units (c : Char) : List Nat :=
  let n := c.toNat
  if n < 0x10000 then [n] else [0xd800 + (n - 0x10000) / 0x400, 0xdc00 + (n - 0x10000) % 0x400]

/-- The units of a text. -/
def encode (s : List Char) : List Nat := s.flatMap units

end PerfGate.Text.Utf16
