import PerfGate.Decimal.Numeral

/-!
# Json — a text as it is written

The grammar of JSON apart from its meaning. Reading a text gives a `Written` tree, in which numbers
are still numerals, strings are still characters and escapes, and an object still has all its
members in order, repeated names included. What a tree denotes, if it denotes anything, is
`PerfGate.Json.Value`.

Every reader takes the characters that are left and returns what it found with what follows.
-/

namespace PerfGate.Json

/-- A piece of a string: a character, or a unit of UTF-16 written as an escape with four digits. -/
inductive Piece where
  | char (c : Char)
  | unit (u : Nat)
deriving DecidableEq

/-- A JSON text as it is written. -/
inductive Written where
  | null
  | bool (b : Bool)
  | number (n : Numeral)
  | string (pieces : List Piece)
  | array (items : List Written)
  | object (members : List (List Piece × Written))

/-- The white space between tokens. -/
def isSpace (c : Char) : Bool := c = ' ' || c = '\t' || c = '\n' || c = '\r'

/-- What follows the white space. -/
def skipSpace (s : List Char) : List Char := s.dropWhile isSpace

/-! ## Strings -/

/-- The value of a hexadecimal digit. -/
def hexDigit? (c : Char) : Option Nat :=
  if '0' ≤ c ∧ c ≤ '9' then some (c.toNat - '0'.toNat)
  else if 'a' ≤ c ∧ c ≤ 'f' then some (c.toNat - 'a'.toNat + 10)
  else if 'A' ≤ c ∧ c ≤ 'F' then some (c.toNat - 'A'.toNat + 10)
  else none

/-- The unit that four hexadecimal digits spell. -/
def hexUnit? (a b c d : Char) : Option Nat := do
  let a ← hexDigit? a
  let b ← hexDigit? b
  let c ← hexDigit? c
  let d ← hexDigit? d
  return ((a * 16 + b) * 16 + c) * 16 + d

/-- The character that an escape of one letter stands for. -/
def escapeChar? (c : Char) : Option Char :=
  if c = '\"' ∨ c = '\\' ∨ c = '/' then some c
  else if c = 'b' then some '\x08'
  else if c = 'f' then some '\x0c'
  else if c = 'n' then some '\n'
  else if c = 'r' then some '\r'
  else if c = 't' then some '\t'
  else none

/-- The pieces of a string, from behind its opening quote. Control characters have to be escaped. -/
def readString : List Char → Option (List Piece × List Char)
  | [] => none
  | '\"' :: rest => some ([], rest)
  | '\\' :: 'u' :: a :: b :: c :: d :: rest =>
    match hexUnit? a b c d, readString rest with
    | some u, some (ps, rest') => some (.unit u :: ps, rest')
    | _, _ => none
  | '\\' :: e :: rest =>
    match escapeChar? e, readString rest with
    | some c, some (ps, rest') => some (.char c :: ps, rest')
    | _, _ => none
  | c :: rest =>
    if c < ' ' then none else (readString rest).map fun (ps, rest') => (.char c :: ps, rest')

/-- A quote that is not escaped ends the string. -/
theorem readString_quote (rest : List Char) : readString ('\"' :: rest) = some ([], rest) := by
  rw [readString]

/-! ## Numbers -/

/-- The digits before the point: one zero, or digits that start with another. -/
def readWholePart (s : List Char) : Option (List Char × List Char) :=
  let digits := s.takeWhile Char.isDigit
  let rest := s.dropWhile Char.isDigit
  match digits with
  | [] => none
  | '0' :: _ :: _ => none
  | _ => some (digits, rest)

/-- The digits behind the point, if there is one. -/
def readFraction (s : List Char) : Option (Option (List Char) × List Char) :=
  match s with
  | '.' :: rest =>
    let digits := rest.takeWhile Char.isDigit
    if digits = [] then none else some (some digits, rest.dropWhile Char.isDigit)
  | _ => some (none, s)

/-- The exponent, if there is one. -/
def readExponent (s : List Char) : Option (Option Int × List Char) :=
  match s with
  | [] => some (none, [])
  | c :: rest =>
    if c = 'e' ∨ c = 'E' then
      let (negative, rest) := Numeral.splitSign rest
      let digits := rest.takeWhile Char.isDigit
      let n : Int := Nat.ofDigitChars 10 digits 0
      if digits = [] then none
      else some (some (if negative then -n else n), rest.dropWhile Char.isDigit)
    else some (none, s)

/-- The sign, if there is one: only the minus is allowed. -/
def readMinus : List Char → Bool × List Char
  | '-' :: rest => (true, rest)
  | s => (false, s)

/-- A number, up to the first character that cannot belong to it. -/
def readNumber (s : List Char) : Option (Numeral × List Char) := do
  let (negative, s) := readMinus s
  let (whole, s) ← readWholePart s
  let (fraction?, s) ← readFraction s
  let (exponent?, s) ← readExponent s
  return (⟨negative, whole, fraction?, exponent?⟩, s)

/-! ## Values -/

/-- A value that holds no other. -/
def readScalar : List Char → Option (Written × List Char)
  | 'n' :: 'u' :: 'l' :: 'l' :: rest => some (.null, rest)
  | 't' :: 'r' :: 'u' :: 'e' :: rest => some (.bool true, rest)
  | 'f' :: 'a' :: 'l' :: 's' :: 'e' :: rest => some (.bool false, rest)
  | '\"' :: rest => (readString rest).map fun (ps, rest') => (.string ps, rest')
  | s => (readNumber s).map fun (n, rest) => (.number n, rest)

/-- One or more things read by `read`, with commas between them, up to the character `close`. The
first list bounds the number of things; the text itself is always long enough. -/
def readSeries {α : Type} (read : List Char → Option (α × List Char)) (close : Char) :
    List Char → List Char → Option (List α × List Char)
  | [], _ => none
  | _ :: bound, s =>
    match read s with
    | none => none
    | some (x, rest) =>
      match skipSpace rest with
      | [] => none
      | c :: rest' =>
        if c = close then some ([x], rest')
        else if c = ',' then
          (readSeries read close bound rest').map fun (xs, rest'') => (x :: xs, rest'')
        else none

/-- The content of brackets, from behind the opening one. -/
def readBracketed {α : Type} (read : List Char → Option (α × List Char)) (close : Char)
    (s : List Char) : Option (List α × List Char) :=
  match skipSpace s with
  | [] => none
  | c :: rest => if c = close then some ([], rest) else readSeries read close s s

/-- A member of an object, its value read by `read`. -/
def readMember (read : List Char → Option (Written × List Char)) (s : List Char) :
    Option ((List Piece × Written) × List Char) :=
  match skipSpace s with
  | '\"' :: rest =>
    match readString rest with
    | none => none
    | some (name, rest') =>
      match skipSpace rest' with
      | ':' :: rest'' => (read rest'').map fun (w, rest''') => ((name, w), rest''')
      | _ => none
  | _ => none

/-- A value with at most `depth` brackets around one another, after white space. -/
def readWritten : Nat → List Char → Option (Written × List Char)
  | 0, s => readScalar (skipSpace s)
  | depth + 1, s =>
    match skipSpace s with
    | '[' :: rest =>
      (readBracketed (readWritten depth) ']' rest).map fun (ws, rest') => (.array ws, rest')
    | '{' :: rest =>
      (readBracketed (readMember (readWritten depth)) '}' rest).map
        fun (ms, rest') => (.object ms, rest')
    | s => readScalar s

/-- A whole text: one value with at most `depth` brackets around one another, and white space. -/
def Written.read? (depth : Nat) (text : List Char) : Option Written :=
  match readWritten depth text with
  | some (w, rest) => if skipSpace rest = [] then some w else none
  | none => none

end PerfGate.Json
