import PerfGate.Policy.Basic

/-!
# Options — what a run is asked to do

The options of a run with their words on the command line, and the reasons for which a command line
starts no run.
-/

namespace PerfGate

/-- An option with a value. -/
inductive OptionName where
  | am
  | cluster
  | amSchema
  | clusterSchema
  | baselineDir
  | os
  | tolQps
  | tolGbps
  | output
  | cmakeCache
deriving DecidableEq

namespace OptionName

/-- All options with a value, and their words. -/
def words : List (String × OptionName) :=
  [("am", .am), ("cluster", .cluster), ("am-schema", .amSchema),
    ("cluster-schema", .clusterSchema), ("baseline-dir", .baselineDir), ("os", .os),
    ("tol-qps", .tolQps), ("tol-gbps", .tolGbps), ("output", .output),
    ("cmake-cache", .cmakeCache)]

/-- Whether the value is a number. -/
def isNumber : OptionName → Bool
  | .tolQps | .tolGbps => true
  | _ => false

/-- Whether the value may be empty: a path may not. -/
def allowsEmpty : OptionName → Bool
  | .os => true
  | _ => false

end OptionName

/-- Why a command line starts no run. -/
inductive Usage where
  | missingOption
  | unknownWord
  | repeatedOption
  | invalidNumber
  | missingValue
  | needlessValue
  | help
  | version
deriving DecidableEq

/-- The options of a run. -/
structure Options where
  am : String
  cluster : String
  amSchema : String
  clusterSchema : String
  baselineDir : String
  os : String
  tolQps : Binary64
  tolGbps : Binary64
  output : String
  cmakeCache : String
  debug : Bool

namespace Options

/-- The artifact's path unless another is given. -/
def defaultOutput : String := "perf_agg.ndjson"

/-- The build cache's path unless another is given. -/
def defaultCmakeCache : String := "build/CMakeCache.txt"

/-- The policy that the options ask for. -/
def policy (o : Options) : Policy := Policy.forRunner o.os o.tolQps o.tolGbps

end Options

end PerfGate
