import PerfGate.Text.Unprintable

/-!
# Text — quoted names

Names from logs are shown between double quotes, on one line and without ambiguity: quotes and
backslashes are escaped, and so is every character that would not be seen.
-/

namespace PerfGate.Text

/-- One character inside quotes. -/
def escaped (c : Char) : List Char :=
  if c = '\"' ∨ c = '\\' then ['\\', c]
  else if c = '\n' then ['\\', 'n']
  else if c = '\r' then ['\\', 'r']
  else if c = '\t' then ['\\', 't']
  else if c = '\x00' then ['\\', '0']
  else if isUnprintable c then ['\\', 'u', '{'] ++ Nat.toDigits 16 c.toNat ++ ['}']
  else [c]

/-- A text between quotes. -/
def quoted (s : String) : String :=
  String.ofList ('\"' :: s.toList.flatMap escaped ++ ['\"'])

/-- A list of names between brackets. -/
def quotedList (names : List String) : String :=
  "[" ++ ", ".intercalate (names.map quoted) ++ "]"

end PerfGate.Text
