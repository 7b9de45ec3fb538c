import PerfGate.BuildCache
import PerfGate.Json.Printer

/-!
# Provenance — where the numbers come from

The runner and the compiler behind a run. Provenance goes into the artifact and has no part in the
judgement: what is not known is left empty or out.
-/

namespace PerfGate

/-- Where the numbers of a run come from. -/
structure Provenance where
  runnerOs : String
  imageOs : String
  imageVersion : String
  compiler? : Option String
  compilerVersion? : Option String
deriving DecidableEq

namespace Provenance

/-- The provenance given by the environment's variables and the text of the build cache, as far as
there is one. -/
def collect (environment : String → Option String) (cache? : Option String) : Provenance where
  runnerOs := (environment "RUNNER_OS").getD ""
  imageOs := (environment "ImageOS").getD ""
  imageVersion := (environment "ImageVersion").getD ""
  compiler? := cache?.bind BuildCache.compiler?
  compilerVersion? := cache?.bind BuildCache.compilerVersion?

/-- A member for a value that may be absent. -/
def optional (name : String) : Option String → Json.Members
  | some s => [(name, .string s)]
  | none => []

/-- The members of a provenance. The compiler is left out if it is not known. -/
def members (p : Provenance) : Json.Members :=
  [("runner_os", .string p.runnerOs), ("image_os", .string p.imageOs),
    ("image_version", .string p.imageVersion)] ++
    optional "cmake_cxx_compiler" p.compiler? ++
    optional "cmake_cxx_compiler_version" p.compilerVersion?

/-- A provenance as a JSON object. -/
def toValue (p : Provenance) : Json.Value := .object p.members

end Provenance

end PerfGate
