import PerfGate.Decimal.Layout
import PerfGate.Json.Value

/-!
# Json — compact text

The text of a value without white space. Doubles have the fewest digits that read back to them and
always a point or an exponent, so they stay apart from integers; infinities and NaN, which JSON
cannot write, become `null`.
-/

namespace PerfGate.Json

/-- Numbers from `0.00001` up to `10 ^ 16` are written without exponent, and of two equally short
and near texts the one with the even last digit is written. -/
def numberLayout : Decimal.Layout where
  tie := .even
  positional lead := decide (-5 ≤ lead ∧ lead < 16)
  pointZero := true
  plus := true

/-- The text of a double. -/
def doubleText (x : Binary64) : List Char :=
  if x.isFinite then numberLayout.text x else "null".toList

/-- One character of a string. Only quotes, backslashes and the characters below the space are
escaped. -/
def escaped (c : Char) : List Char :=
  if c = '\"' ∨ c = '\\' then ['\\', c]
  else if c = '\n' then ['\\', 'n']
  else if c = '\r' then ['\\', 'r']
  else if c = '\t' then ['\\', 't']
  else if c = '\x08' then ['\\', 'b']
  else if c = '\x0c' then ['\\', 'f']
  else if c < ' ' then
    ['\\', 'u', '0', '0', Nat.digitChar (c.toNat / 16), Nat.digitChar (c.toNat % 16)]
  else [c]

/-- A string between its quotes. -/
def stringText (s : String) : List Char := '\"' :: s.toList.flatMap escaped ++ ['\"']

/-- Texts with commas between them. -/
def joined : List (List Char) → List Char
  | [] => []
  | [s] => s
  | s :: rest => s ++ ',' :: joined rest

/-- A member: its name, a colon, the text of its value. -/
def memberText (name : String) (value : List Char) : List Char := stringText name ++ ':' :: value

/-- The members of an object between braces. -/
def objectText (members : List (List Char)) : List Char := '{' :: joined members ++ ['}']

mutual

/-- The compact text of a value. -/
def Value.text : Value → List Char
  | .null => "null".toList
  | .bool b => (if b then "true" else "false").toList
  | .integer i => (toString i).toList
  | .real x => doubleText x
  | .string s => stringText s
  | .array items => '[' :: joined (Value.texts items) ++ [']']
  | .object members => objectText (Value.memberTexts members)

/-- The texts of the items of an array. -/
def Value.texts : List Value → List (List Char)
  | [] => []
  | v :: rest => v.text :: Value.texts rest

/-- The texts of the members of an object. -/
def Value.memberTexts : List (String × Value) → List (List Char)
  | [] => []
  | (name, v) :: rest => memberText name v.text :: Value.memberTexts rest

end

/-- The compact text of a value. -/
def Value.toText (v : Value) : String := String.ofList v.text

end PerfGate.Json
