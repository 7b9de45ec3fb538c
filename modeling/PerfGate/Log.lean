import PerfGate.Error
import PerfGate.Text.Blank

/-!
# Log — records among console output

A log has one JSON object per line, mixed with lines that are no records: blank ones and any that
do not start with a brace. A line that starts like a record has to be one. Records keep the number
of their line, counted from one.
-/

namespace PerfGate

/-- A record of a log. -/
structure Record where
  line : Nat
  members : Json.Members

namespace Record

/-- The value of a field. -/
def get? (r : Record) (name : String) : Option Json.Value := r.members.get? name

/-- Whether the record has a field, whatever its value. -/
def has (r : Record) (name : String) : Bool := (r.get? name).isSome

end Record

namespace Log

/-- The lines of a text. Every line feed ends one; what follows the last is a line too. -/
def lines (text : String) : List (List Char) := text.toList.splitOn '\n'

/-- The record on a line that starts like one. `none` stands for a line that is no record. -/
def readLine (path : String) (number : Nat) (line : List Char) : Except Error (Option Record) :=
  match Text.trim line with
  | '{' :: rest =>
    match Json.parseObject? ('{' :: rest) with
    | some members => .ok (some ⟨number, members⟩)
    | none => .error (.malformedLine path number)
  | _ => .ok none

/-- The records on the lines from number `first` on. -/
def readLines (path : String) (first : Nat) : List (List Char) → Except Error (List Record)
  | [] => .ok []
  | line :: rest => do
    let record? ← readLine path first line
    let records ← readLines path (first + 1) rest
    return record?.toList ++ records

/-- The records of a text, up to the first line that should be a record and is none. -/
def parse (path : String) (text : String) : Except Error (List Record) :=
  readLines path 1 (lines text)

/-- The text of a log from its bytes. -/
def decode (path : String) (bytes : List UInt8) : Except Error String :=
  (Text.decode bytes).mapError (.undecodable path)

/-- The records of a log from its bytes. -/
def read (path : String) (bytes : List UInt8) : Except Error (List Record) := do
  parse path (← decode path bytes)

end Log

end PerfGate
