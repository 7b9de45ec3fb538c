import PerfGate.Json.Printer
import PerfGate.Text.Quoted
import PerfGate.Workload

/-!
# Baseline — what can be wrong with a baseline document

The faults of a document and of the values in it, and their messages.
-/

namespace PerfGate.Baseline

/-- What a value in a document has to be. -/
inductive Shape where
  | group
  | stats
  | number
deriving DecidableEq

/-- The name of a shape in messages. -/
def Shape.label : Shape → String
  | .group => "a map"
  | .stats => "struct Aggregate"
  | .number => "f64"

/-- What is wrong with the value of a group. -/
inductive ShapeFault where
  | wrongType (found : Json.Value) (expected : Shape)
  | missingMean
  | noNumbers
  | moreNumbers (count : Nat)

/-- A value as messages name it. -/
def describe : Json.Value → String
  | .null => "null"
  | .bool b => "boolean `" ++ (if b then "true" else "false") ++ "`"
  | .integer i => "integer `" ++ toString i ++ "`"
  | .real x => "floating point `" ++ String.ofList (Json.doubleText x) ++ "`"
  | .string s => "string " ++ Text.quoted s
  | .array _ => "sequence"
  | .object _ => "map"

/-- The message of a fault in a value. -/
def ShapeFault.message : ShapeFault → String
  | .wrongType found expected =>
    "invalid type: " ++ describe found ++ ", expected " ++ expected.label
  | .missingMean => "missing field `mean`"
  | .noNumbers => "invalid length 0, expected struct Aggregate with 3 elements"
  | .moreNumbers count =>
    "invalid length " ++ toString count ++ ", expected fewer elements in array"

/-- What is wrong with a document. Keys are given as they stand in the document. -/
inductive Fault where
  | notAnObject
  | badKey (key : String)
  | badGroup (key : String) (fault : ShapeFault)
  | missingMetric (key : String) (metric : Metric)

/-- The message of a fault, for a document at `path`. Of a text that is no JSON object the JSON reader
has more to say, behind a colon; its words are not modelled. -/
def Fault.message (path : String) : Fault → String
  | .notAnObject => "Invalid baseline " ++ path
  | .badKey key => "Invalid baseline " ++ path ++ ": cannot decode group key " ++ key
  | .badGroup key fault =>
    "Invalid baseline " ++ path ++ ": group " ++ key ++ ": " ++ fault.message
  | .missingMetric key metric =>
    "Invalid baseline " ++ path ++ ": group " ++ key ++ " has no '" ++ metric.field ++ "' entry"

end PerfGate.Baseline
