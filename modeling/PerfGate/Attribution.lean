import PerfGate.Log

/-!
# Attribution — which workload a record belongs to

Both workloads may write into one log. A record belongs to a workload if it carries all of its
fields; one that carries the fields of both belongs to none, and no run is judged on such a log.
-/

namespace PerfGate.Workload

/-- Whether a record carries all fields of the workload. -/
def matchesRecord (w : Workload) (r : Record) : Bool := w.requiredFields.all r.has

/-- The fields of the workload that a record lacks. -/
def missingFields (w : Workload) (r : Record) : List String :=
  w.requiredFields.filter fun name => !r.has name

/-- The records of the workload, in order. Other records are passed over. -/
def select (w : Workload) : List Record → Except Error (List Record)
  | [] => .ok []
  | r :: rest =>
    if w.matchesRecord r then
      if w.other.matchesRecord r then .error (.ambiguousRecord r.line)
      else (select w rest).map (r :: ·)
    else select w rest

/-- Checks that records, numbered from `row` on, lack none of the workload's fields. -/
def requireFrom (w : Workload) (row : Nat) : List Record → Except Error Unit
  | [] => .ok ()
  | r :: rest =>
    match w.missingFields r with
    | [] => requireFrom w (row + 1) rest
    | names => .error (.missingFields w row names)

/-- Checks that all records carry the workload's fields. -/
def require (w : Workload) (records : List Record) : Except Error Unit := requireFrom w 0 records

end PerfGate.Workload
