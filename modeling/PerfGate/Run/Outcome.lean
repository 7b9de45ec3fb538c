import PerfGate.FileTree.Basic
import PerfGate.Options.Reading
import PerfGate.Run.Judgement

/-!
# Run — outcomes

A whole run on a tree of files: its exit status, what it prints, and the tree that it leaves behind.
A run that ends with an error prints nothing and changes nothing. A run that is judged writes its
artifact, and whether that succeeds makes no difference to the rest.

The output is apart from the tree, and no path leads to it. What a tree does not have has no part in
an outcome either: special files, links, permissions, and writes that stop half-way.
-/

namespace PerfGate

/-! ## Usage -/

namespace Usage

/-- The exit status of a command line that starts no run. -/
def status : Usage → Nat
  | .help | .version => 0
  | _ => 2

/-- The name and version of the program. -/
def versionText : String := "benchgate 0.1.0\n"

/-- How the program is called. -/
def helpText : String :=
  "Usage: benchgate --am <PATH> --cluster <PATH> --am-schema <PATH> --cluster-schema <PATH>\n" ++
    "    --baseline-dir <DIR> --os <OS> --tol-qps <PCT> --tol-gbps <PCT>\n" ++
    "    [--output <PATH>] [--cmake-cache <PATH>] [--debug]\n"

/-- What a command line that starts no run prints. -/
def output : Usage → String
  | .help => helpText
  | .version => versionText
  | _ => ""

end Usage

/-! ## Outcomes -/

/-- How a run ended. -/
inductive Ending where
  | usage (u : Usage)
  | aborted (a : Abort)
  /-- The run was judged; the artifact may not have been written. -/
  | judged (writeFault? : Option FileFault)

/-- What a run leaves behind. -/
structure Outcome where
  status : Nat
  output : String
  files : FileTree
  ending : Ending

namespace Run

/-- The run that a command line starts, on a tree of files and with the given variables. -/
def onTree (files : FileTree) (environment : String → Option String) (words : List String) :
    Outcome :=
  match Options.parse words with
  | .error u => ⟨u.status, u.output, files, .usage u⟩
  | .ok o =>
    match judge files.read o with
    | .error a => ⟨1, "", files, .aborted a⟩
    | .ok j =>
      let artifact := j.artifact (provenance files.read environment o)
      match files.write o.output artifact.toUTF8.data.toList with
      | .ok written => ⟨j.assessment.status, j.output, written, .judged none⟩
      | .error fault => ⟨j.assessment.status, j.output, files, .judged (some fault)⟩

end Run

end PerfGate
