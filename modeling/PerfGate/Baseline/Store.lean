import PerfGate.Baseline.Basic
import PerfGate.FileTree.Path

/-!
# Baseline — the store

Baselines are kept below one root, in a directory for each runner, with one document for each
workload. Reading takes the files from a function that gives the content at a path.
-/

namespace PerfGate

/-- How the content of a file is obtained. -/
abbrev FileReader := String → Except FileFault (List UInt8)

/-- The text of a file that has to be UTF-8. -/
def FileReader.text (read : FileReader) (path : String) : Except FileFault String := do
  match String.fromUTF8? (List.toByteArray (← read path)) with
  | some text => return text
  | none => throw .notText

/-- The recorded summaries of both workloads. -/
structure Baselines where
  am : Baseline
  cluster : Baseline

namespace Baselines

/-- The baseline of a workload. -/
def of (b : Baselines) : Workload → Baseline
  | .am => b.am
  | .cluster => b.cluster

/-- The directory name for a runner. Three runner labels have a name of their own; any other runner
is its own directory. -/
def directoryName (os : String) : String :=
  if os = "ubuntu-latest" then "linux"
  else if os = "windows-latest" then "windows"
  else if os = "macos-latest" then "macos"
  else os

/-- The directory of a runner's baselines. -/
def directory (root os : String) : String := Path.join root (directoryName os)

/-- Reads the baseline of one workload from a directory. -/
def readOne (read : FileReader) (dir : String) (w : Workload) : Except Error Baseline := do
  let path := Path.join dir w.baselineFile
  let text ← (read.text path).mapError (.unreadable path)
  Baseline.parse w path text

/-- Reads both baselines of a runner. -/
def read (read : FileReader) (root os : String) : Except Error Baselines := do
  let dir := directory root os
  let am ← readOne read dir .am
  let cluster ← readOne read dir .cluster
  return { am, cluster }

end Baselines

end PerfGate
