import PerfGate.Run.Outcome

/-!
# Main — the program

Reads the files that a run may need, judges, writes the artifact and prints.
-/

namespace PerfGate.Main

/-- The content of a file on disk. -/
def readFile (path : String) : IO (Except FileFault (List UInt8)) := do
  try
    let bytes ← IO.FS.readBinFile path
    return .ok bytes.data.toList
  catch
    | .noFileOrDirectory .. => return .error .notFound
    | e => return .error (.other (toString e))

/-- The variables that provenance asks for. -/
def readEnvironment : IO (List (String × String)) := do
  let mut found := []
  for name in ["RUNNER_OS", "ImageOS", "ImageVersion"] do
    if let some value ← IO.getEnv name then
      found := (name, value) :: found
  return found

/-- Judges a run on disk. -/
def run (o : Options) : IO UInt32 := do
  let mut contents := []
  for path in Run.inputs o do
    contents := (path, ← readFile path) :: contents
  let read : FileReader := fun path => (contents.lookup path).getD (.error .notFound)
  match Run.judge read o with
  | .error abort =>
    IO.eprintln ("Error: " ++ abort.message)
    if abort.stage?.isSome then
      IO.eprintln ("\nCaused by:\n    " ++ abort.cause.message)
    return 1
  | .ok judgement =>
    let environment ← readEnvironment
    let artifact := judgement.artifact (Run.provenance read (fun name => environment.lookup name) o)
    try
      IO.FS.writeFile o.output artifact
    catch e =>
      IO.eprintln ("warning: failed to write aggregates NDJSON to " ++ o.output ++ ": " ++
        toString e)
    IO.print judgement.output
    return judgement.assessment.status.toUInt32

end PerfGate.Main

/-- Runs the gate on the options of the command line. -/
def main (args : List String) : IO UInt32 := do
  match PerfGate.Options.parse args with
  | .error usage =>
    IO.print usage.output
    if usage.status ≠ 0 then
      IO.eprintln ("error: invalid command line\n\n" ++ PerfGate.Usage.helpText)
    return usage.status.toUInt32
  | .ok options => PerfGate.Main.run options
