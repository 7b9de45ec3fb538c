import PerfGate.Log

/-!
# Configuration — what is benchmarked

Trials are repeats of one another if they have the same configuration: a name and three sizes.
Records and baseline documents spell the sizes in several ways, as integers, as doubles and as
strings, and all spellings of one size are one (`readInteger?`).
-/

namespace PerfGate

/-- A benchmark configuration. -/
structure Configuration where
  name : String
  dimBits : Int
  capacity : Int
  /-- The size of an associative memory, or the number of updates of a cluster index. -/
  size : Int
deriving DecidableEq

/-! ## Field values -/

namespace Field

/-- A string field. -/
def readString? : Json.Value → Option String
  | .string s => some s
  | _ => none

/-- An integer field: an integer of 64 bits, a double below `2 ^ 63` in magnitude without its
fraction, or the text of an integer with any white space around it. -/
def readInteger? : Json.Value → Option Int
  | .integer i => if isInt64 i then some i else none
  | .real x => x.truncate?.filter (·.natAbs < 1 <<< 63)
  | .string s => readInt64? (Text.trim s.toList)
  | _ => none

/-- A number field: a number, or the text of a finite one with any white space around it. -/
def readNumber? : Json.Value → Option Binary64
  | .integer i => some (.ofInt i)
  | .real x => some x
  | .string s => (readDouble? (Text.trim s.toList)).filter Binary64.isFinite
  | _ => none

end Field

namespace Record

/-- The value of a field that a record of the workload has to carry. -/
def require (r : Record) (w : Workload) (name : String) : Except Error Json.Value :=
  match r.get? name with
  | some v => .ok v
  | none => .error (.missingFields w r.line [name])

/-- A field of the given type, read by `read?`. -/
def readField {α : Type} (r : Record) (w : Workload) (type : FieldType)
    (read? : Json.Value → Option α) (name : String) : Except Error α := do
  let value ← r.require w name
  match read? value with
  | some x => return x
  | none => throw (.invalidField name r.line type value)

end Record

namespace Configuration

/-- The configuration of a record. The fields are read one after another. -/
def ofRecord (w : Workload) (r : Record) : Except Error Configuration := do
  let name ← r.readField w .string Field.readString? "name"
  let dimBits ← r.readField w .integer Field.readInteger? "dim_bits"
  let capacity ← r.readField w .integer Field.readInteger? "capacity"
  let size ← r.readField w .integer Field.readInteger? w.sizeField
  return { name, dimBits, capacity, size }

/-- The configuration that an array of four values spells. -/
def ofValue? : Json.Value → Option Configuration
  | .array [name, dimBits, capacity, size] => do
    let name ← Field.readString? name
    let dimBits ← Field.readInteger? dimBits
    let capacity ← Field.readInteger? capacity
    let size ← Field.readInteger? size
    return { name, dimBits, capacity, size }
  | _ => none

/-- A configuration as an array. -/
def toValue (c : Configuration) : Json.Value :=
  .array [.string c.name, .integer c.dimBits, .integer c.capacity, .integer c.size]

/-- A configuration as findings name it. -/
def shown (c : Configuration) : String :=
  "(" ++ Text.quoted c.name ++ ", " ++ toString c.dimBits ++ ", " ++ toString c.capacity ++ ", " ++
    toString c.size ++ ")"

/-- Whether `a` does not come after `b`: by name, then by each size in turn. Names are ordered by
their code points. -/
def le (a b : Configuration) : Bool :=
  if a.name ≠ b.name then a.name < b.name
  else if a.dimBits ≠ b.dimBits then a.dimBits < b.dimBits
  else if a.capacity ≠ b.capacity then a.capacity < b.capacity
  else a.size ≤ b.size

end Configuration

end PerfGate
