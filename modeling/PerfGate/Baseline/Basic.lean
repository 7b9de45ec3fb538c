import PerfGate.Configuration
import PerfGate.Stats

/-!
# Baseline — recorded summaries

A baseline document is a JSON object. Each key is the text of a configuration's array, each value
gives the recorded summaries by field name. Reading is all or nothing: the first fault in the order
of the document is the error, and of one entry first its key is looked at, then its value, then
whether each tracked metric is there.
-/

namespace PerfGate

/-- The recorded summaries of one configuration, by field name. -/
structure BaselineEntry where
  configuration : Configuration
  stats : List (String × Stats)

/-- The recorded summaries of one workload, in document order. -/
structure Baseline where
  entries : List BaselineEntry

namespace Baseline

/-- A baseline that records nothing. -/
def empty : Baseline := ⟨[]⟩

/-- A value that has to be a number. -/
def readNumber : Json.Value → Except ShapeFault Binary64
  | .integer i => .ok (.ofInt i)
  | .real x => .ok x
  | v => .error (.wrongType v .number)

/-- The numbers among the members of a summary. Other members may hold anything. -/
def readNumbers : Json.Members → Except ShapeFault (List (String × Binary64))
  | [] => .ok []
  | (name, v) :: rest =>
    if name ∈ ["mean", "median", "stdev"] then do
      let x ← readNumber v
      return (name, x) :: (← readNumbers rest)
    else readNumbers rest

/-- A recorded summary: an object with a mean, or an array of mean, median and deviation. What is
left out, except for the mean, is zero. -/
def readStats : Json.Value → Except ShapeFault Stats
  | .object members => do
    let numbers ← readNumbers members
    let get (name : String) : Binary64 := (numbers.lookup name).getD (.zero false)
    if (numbers.lookup "mean").isNone then throw .missingMean
    return ⟨get "mean", get "median", get "stdev"⟩
  | .array items => do
    let numbers ← (items.take 3).mapM readNumber
    let get (i : Nat) : Binary64 := numbers[i]?.getD (.zero false)
    if items.isEmpty then throw .noNumbers
    if 3 < items.length then throw (.moreNumbers items.length)
    return ⟨get 0, get 1, get 2⟩
  | v => throw (.wrongType v .stats)

/-- The recorded summaries of one configuration. -/
def readGroup : Json.Value → Except ShapeFault (List (String × Stats))
  | .object members => members.mapM fun (name, v) => do return (name, ← readStats v)
  | v => throw (.wrongType v .group)

/-- The configuration that a key spells. -/
def readKey? (key : String) : Option Configuration :=
  (Json.parse? key.toList).bind Configuration.ofValue?

/-- One entry of a document. -/
def readEntry (w : Workload) (key : String) (value : Json.Value) : Except Fault BaselineEntry :=
  match readKey? key with
  | none => .error (.badKey key)
  | some configuration =>
    match readGroup value with
    | .error fault => .error (.badGroup key fault)
    | .ok stats =>
      match w.metrics.find? fun m => (stats.lookup m.field).isNone with
      | some metric => .error (.missingMetric key metric)
      | none => .ok ⟨configuration, stats⟩

/-- The entries of a document. -/
def readDocument (w : Workload) (text : String) : Except Fault Baseline :=
  match Json.parseObject? text.toList with
  | none => .error .notAnObject
  | some members => (members.mapM fun (key, value) => readEntry w key value).map (⟨·⟩)

/-- The baseline that the document at `path` holds. -/
def parse (w : Workload) (path : String) (text : String) : Except Error Baseline :=
  (readDocument w text).mapError (.invalidBaseline path)

end Baseline

end PerfGate
