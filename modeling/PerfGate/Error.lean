import PerfGate.Baseline.Fault
import PerfGate.Policy.Basic
import PerfGate.Text.Encoding

/-!
# Error — why a run cannot be judged

An error means that there is nothing to compare: a file cannot be read, or what it holds breaks the
rules. What the comparison itself finds is no error (`PerfGate.Finding`).
-/

namespace PerfGate

/-- Why a file cannot be read or written. -/
inductive FileFault where
  /-- The path holds the character zero, which no path can. -/
  | malformedPath
  /-- The path, or a name on it, is longer than any file's. -/
  | nameTooLong
  | notFound
  | isDirectory
  | notDirectory
  | notText
  | other (reason : String)
deriving DecidableEq

/-- The type that a field is read as. -/
inductive FieldType where
  | string
  | integer
  | number
deriving DecidableEq

/-- The name of a field type in messages. -/
def FieldType.label : FieldType → String
  | .string => "string"
  | .integer => "integer"
  | .number => "number"

/-- Why a run cannot be judged. -/
inductive Error where
  | unreadable (path : String) (fault : FileFault)
  | undecodable (path : String) (encoding : Text.Encoding)
  | malformedLine (path : String) (line : Nat)
  | missingFields (workload : Workload) (row : Nat) (names : List String)
  | ambiguousRecord (line : Nat)
  | invalidField (name : String) (line : Nat) (expected : FieldType) (value : Json.Value)
  | invalidBaseline (path : String) (fault : Baseline.Fault)
  | invalidPolicy (fault : Policy.Fault)

/-- The message of an error. An unreadable file and a malformed line also have a reason, in words of
the system or of the JSON reader. These are not modelled: the message ends where they would follow,
behind a colon. -/
def Error.message : Error → String
  | .unreadable path _ => "Failed to read " ++ path
  | .undecodable path encoding => path ++ ": invalid " ++ encoding.label ++ " byte sequence"
  | .malformedLine path line => path ++ ":" ++ toString line ++ " invalid JSON object"
  | .missingFields workload row names =>
    "Missing " ++ workload.tag ++ " fields in row " ++ toString row ++ ": " ++ Text.quotedList names
  | .ambiguousRecord line =>
    "Record on line " ++ toString line ++
      " carries the fields of both AM and Cluster benchmarks"
  | .invalidField name line expected value =>
    "Field '" ++ name ++ "' on line " ++ toString line ++ " is not a valid " ++ expected.label ++
      ": " ++ value.toText
  | .invalidBaseline path fault => fault.message path
  | .invalidPolicy fault => "Invalid gate configuration: " ++ fault.message

end PerfGate
