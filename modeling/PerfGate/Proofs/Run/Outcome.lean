import PerfGate.Proofs.FileTree.Frame
import PerfGate.Proofs.Log.Noise
import PerfGate.Proofs.Run.Stages
import PerfGate.Run.Outcome

/-!
# Run — what a run shows and leaves behind

A run that ends with an error shows nothing and leaves every file as it was; any other shows both
summaries and the report, and changes no file but its artifact (`onTree_of_parse`). What is shown
depends on the logs, the baselines and the demands alone: neither where the artifact goes nor where
the numbers come from has a part in it (`onTree_congr`).
-/

namespace PerfGate.Run

variable {files files' : FileTree} {environment environment' : String → Option String}
  {words words' : List String} {o o' : Options}

/-! ## One run -/

theorem onTree_of_error (hwords : Options.parse words = .ok o) {a : Abort}
    (h : judge files.read o = .error a) :
    onTree files environment words = ⟨1, "", files, .aborted a⟩ := by
  simp only [onTree, hwords, h]

/-- The artifact of a run that is judged, as it is stored. -/
def artifactBytes (files : FileTree) (environment : String → Option String) (o : Options)
    (j : Judgement) : List UInt8 :=
  (j.artifact (provenance files.read environment o)).toUTF8.data.toList

/-- A run that is judged ends in one of two ways: the artifact is written, or nothing is. -/
theorem onTree_of_ok (environment : String → Option String)
    (hwords : Options.parse words = .ok o) {j : Judgement} (h : judge files.read o = .ok j) :
    (∃ written, files.write o.output (artifactBytes files environment o j) = .ok written ∧
      onTree files environment words = ⟨j.assessment.status, j.output, written, .judged none⟩) ∨
    ∃ fault, files.write o.output (artifactBytes files environment o j) = .error fault ∧
      onTree files environment words =
        ⟨j.assessment.status, j.output, files, .judged (some fault)⟩ := by
  cases hwrite : files.write o.output (artifactBytes files environment o j) with
  | ok written =>
      refine .inl ⟨written, rfl, ?_⟩
      unfold artifactBytes at hwrite
      simp only [onTree, hwords, h, hwrite]
  | error fault =>
      refine .inr ⟨fault, rfl, ?_⟩
      unfold artifactBytes at hwrite
      simp only [onTree, hwords, h, hwrite]

/-! ### What is shown -/

/-- The exit status tells of the judgement, or that there is none. -/
theorem status_onTree (hwords : Options.parse words = .ok o) :
    (onTree files environment words).status =
      ((judge files.read o).toOption.map (·.assessment.status)).getD 1 := by
  cases h : judge files.read o with
  | error a => rw [onTree_of_error hwords h, Except.toOption, Option.map_none, Option.getD_none]
  | ok j =>
      rcases onTree_of_ok environment hwords h with
        ⟨_, _, houtcome⟩ | ⟨_, _, houtcome⟩
      · rw [houtcome, Except.toOption, Option.map_some, Option.getD_some]
      · rw [houtcome, Except.toOption, Option.map_some, Option.getD_some]

/-- The output is that of the judgement, and empty if there is none. -/
theorem output_onTree (hwords : Options.parse words = .ok o) :
    (onTree files environment words).output =
      ((judge files.read o).toOption.map (·.output)).getD "" := by
  cases h : judge files.read o with
  | error a => rw [onTree_of_error hwords h, Except.toOption, Option.map_none, Option.getD_none]
  | ok j =>
      rcases onTree_of_ok environment hwords h with
        ⟨_, _, houtcome⟩ | ⟨_, _, houtcome⟩
      · rw [houtcome, Except.toOption, Option.map_some, Option.getD_some]
      · rw [houtcome, Except.toOption, Option.map_some, Option.getD_some]

/-! ### What is left behind -/

/-- What a judged run leaves of the files that it found. -/
structure Leaves (files : FileTree) (o : Options) (artifact : List UInt8) (outcome : Outcome) :
    Prop where
  /-- Nothing is made, changed or removed but at the place of the artifact. -/
  places : ∀ place, files.filePlace? o.output ≠ some place →
    outcome.files.node? place = files.node? place
  /-- Every other file is read as before. -/
  reads : ∀ path content, files.read path = .ok content →
    files.filePlace? path ≠ files.filePlace? o.output → outcome.files.read path = .ok content
  /-- The artifact is stored, or could not be, and then all files are as they were. -/
  artifact : outcome.ending = .judged none ∧ outcome.files.read o.output = .ok artifact ∨
    ∃ fault, outcome.ending = .judged (some fault) ∧ outcome.files = files

theorem leaves_of_ok (hwords : Options.parse words = .ok o) {j : Judgement}
    (h : judge files.read o = .ok j) :
    Leaves files o (artifactBytes files environment o j) (onTree files environment words) := by
  rcases onTree_of_ok environment hwords h with
    ⟨written, hwrite, houtcome⟩ | ⟨fault, _, houtcome⟩
  · rw [houtcome]
    refine ⟨fun place hplace => ?_, fun path content hread hne => ?_, .inl ⟨rfl, ?_⟩⟩
    · rw [FileTree.node?_write hwrite, if_neg hplace]
    · exact FileTree.read_write_of_ne hwrite hread hne
    · exact FileTree.read_write_self hwrite
  · rw [houtcome]
    exact ⟨fun _ _ => rfl, fun _ _ hread _ => hread, .inr ⟨fault, rfl, rfl⟩⟩

/-- A run ends with its first fault, and then shows nothing and changes nothing, whatever else is
wrong. Without a fault it shows the summaries of both workloads and the report of what was found,
its status tells whether anything was, and nothing changes but the artifact: whether that could be
written makes no difference to the rest. -/
theorem onTree_of_parse (environment : String → Option String)
    (hwords : Options.parse words = .ok o) :
    (∀ before check after a, Check.order = before ++ check :: after →
      (∀ earlier ∈ before, fault? files.read o earlier = none) →
      fault? files.read o check = some a →
      onTree files environment words = ⟨1, "", files, .aborted a⟩) ∧
    ((∀ check ∈ Check.order, fault? files.read o check = none) →
      ∃ j, Judged files.read o j ∧
        (onTree files environment words).output =
          Report.summary [j.am, j.cluster] ++ j.assessment.report ∧
        (onTree files environment words).status = (if j.assessment.findings = [] then 0 else 2) ∧
        Leaves files o (artifactBytes files environment o j)
          (onTree files environment words)) := by
  constructor
  · intro before check after a horder hearlier hcheck
    have hfirst : Check.order.findSome? (fault? files.read o) = some a :=
      List.findSome?_eq_some_iff.2 ⟨before, check, after, horder, hcheck, hearlier⟩
    rw [← error?_judge, error?_eq_some_iff] at hfirst
    exact onTree_of_error hwords hfirst
  · intro hnone
    rw [← List.findSome?_eq_none_iff, ← error?_judge, error?_eq_none_iff] at hnone
    obtain ⟨j, hj⟩ := hnone
    have hjudge : (judge files.read o).toOption = some j := toOption_eq_some_iff.2 hj
    refine ⟨j, judged_of_judge hj, ?_, ?_, leaves_of_ok hwords hj⟩
    · rw [output_onTree hwords, hjudge]
      rfl
    · rw [status_onTree hwords, hjudge]
      simp [Assessment.status, Assessment.passes]

/-- A command line with all inputs in different places. -/
def sampleWords (tolerance : String) (more : List String) : List String :=
  ["--am", "am.ndjson", "--cluster", "logs/cluster.ndjson", "--baseline-dir", "baselines",
    "--os", "ubuntu-latest", "--tol-qps", tolerance, "--tol-gbps", "15"] ++ more

/-- The files for it: a log of one trial, another log, an old artifact and empty baselines. -/
def sampleFiles (cluster : String) : FileTree :=
  let file (content : String) : FileNode := .file content.toUTF8.data.toList
  [("am.ndjson", Log.oneTrial), ("logs/cluster.ndjson", cluster), ("old.ndjson", "old"),
    ("baselines/linux/am_bench.json", "\x7b\x7d"),
    ("baselines/linux/cluster_bench.json", "\x7b\x7d")].foldl
      (fun files (path, content) => files.add path (file content)) ⟨["work"], []⟩

/-- The schemas have to be named, but they are not read. -/
def sampleSchemas : List String := ["--am-schema", "am.json", "--cluster-schema", "cluster.json"]

/-- A broken log is reported before a tolerance below zero, and the old artifact stays. With both
mended the run is judged, although its artifact cannot be written where a directory is. -/
theorem onTree_sample :
    (∃ a, onTree (sampleFiles "\x7b") (fun _ => none)
        (sampleWords "-1" (sampleSchemas ++ ["--output", "old.ndjson"])) =
          ⟨1, "", sampleFiles "\x7b", .aborted a⟩ ∧
      a.headline = "Failed to load Cluster benchmark log") ∧
    ∃ j : Judgement,
      (onTree (sampleFiles "") (fun _ => none)
        (sampleWords "10" (sampleSchemas ++ ["--output", "logs"]))).output =
          Report.summary [j.am, j.cluster] ++ j.assessment.report ∧
      (onTree (sampleFiles "") (fun _ => none)
        (sampleWords "10" (sampleSchemas ++ ["--output", "logs"]))).files.read "old.ndjson" =
          .ok "old".toUTF8.data.toList := by
  constructor
  · let earlier : List Check := [.load .am, .select .am, .require .am]
    have hrun : ((Options.parse (sampleWords "-1"
        (sampleSchemas ++ ["--output", "old.ndjson"]))).toOption.bind fun o =>
          if earlier.all fun check => (fault? (sampleFiles "\x7b").read o check).isNone then
            (fault? (sampleFiles "\x7b").read o (.load .cluster)).map (·.headline)
          else none) = some "Failed to load Cluster benchmark log" := by
      decide +kernel
    simp only [Option.bind_eq_some_iff, toOption_eq_some_iff] at hrun
    obtain ⟨o, hwords, hrun⟩ := hrun
    split at hrun
    · rename_i hnone
      obtain ⟨a, ha, hheadline⟩ := Option.map_eq_some_iff.1 hrun
      refine ⟨a, (onTree_of_parse _ hwords).1 earlier _ _ a rfl ?_ ha, hheadline⟩
      simpa using hnone
    · cases hrun
  · have hrun : (Options.parse (sampleWords "10"
        (sampleSchemas ++ ["--output", "logs"]))).toOption.any fun o =>
          o.output = "logs" ∧ Check.order.all fun check =>
            (fault? (sampleFiles "").read o check).isNone := by
      decide +kernel
    simp only [Option.any_eq_true, toOption_eq_some_iff, decide_eq_true_eq] at hrun
    obtain ⟨o, hwords, hlogs, hnone⟩ := hrun
    obtain ⟨j, -, houtput, -, hleaves⟩ :=
      (onTree_of_parse (fun _ => none) hwords).2 (by simpa using hnone)
    have hold : ((sampleFiles "").read "old.ndjson").toOption = some "old".toUTF8.data.toList := by
      decide +kernel
    have hother : (sampleFiles "").filePlace? "old.ndjson" ≠ (sampleFiles "").filePlace? "logs" := by
      decide +kernel
    rw [← hlogs] at hother
    exact ⟨j, houtput, hleaves.reads _ _ (toOption_eq_some_iff.1 hold) hother⟩

/-! ## Two runs -/

section Congruence

variable {read read' : FileReader}

theorem toOption_mark {α : Type} (stage : Stage) (x : Except Error α) :
    (stage.mark x).toOption = x.toOption := toOption_mapError x _

/-- A log is made of the content of its file. Why there is none makes no difference to what it
holds. -/
theorem toOption_load (path : String) :
    (Log.load read path).toOption =
      (read path).toOption.bind fun bytes => (Log.read path bytes).toOption := by
  unfold Log.load
  cases read path with
  | error fault => rfl
  | ok bytes => rfl

theorem toOption_loadWorkload_congr {path : String} (w : Workload)
    (h : (read path).toOption = (read' path).toOption) :
    (loadWorkload read path w).toOption = (loadWorkload read' path w).toOption := by
  simp only [loadWorkload, toOption_bind, toOption_mark, toOption_load, h]

theorem toOption_text (path : String) :
    (read.text path).toOption =
      (read path).toOption.bind fun bytes => String.fromUTF8? (List.toByteArray bytes) := by
  rw [FileReader.text, toOption_bind]
  congr 1
  funext bytes
  cases String.fromUTF8? (List.toByteArray bytes) with
  | none => rfl
  | some text => rfl

theorem toOption_readOne_congr {dir : String} (w : Workload)
    (h : (read (Path.join dir w.baselineFile)).toOption =
      (read' (Path.join dir w.baselineFile)).toOption) :
    (Baselines.readOne read dir w).toOption = (Baselines.readOne read' dir w).toOption := by
  simp only [Baselines.readOne, toOption_bind, toOption_mapError, toOption_text, h]

end Congruence

/-- Options that name the same logs and baselines and make the same demands. -/
structure SameDemands (o o' : Options) : Prop where
  am : o.am = o'.am
  cluster : o.cluster = o'.cluster
  baselineDir : o.baselineDir = o'.baselineDir
  os : o.os = o'.os
  tolQps : o.tolQps = o'.tolQps
  tolGbps : o.tolGbps = o'.tolGbps

/-- The files that a run is judged on: two logs and two baseline documents. -/
def evidence (o : Options) : List String :=
  let dir := Baselines.directory o.baselineDir o.os
  [o.am, o.cluster, Path.join dir Workload.am.baselineFile,
    Path.join dir Workload.cluster.baselineFile]

/-- Files with the same contents are judged alike. -/
theorem toOption_judge_congr {read read' : FileReader} (hdemands : SameDemands o o')
    (h : ∀ path ∈ evidence o, (read path).toOption = (read' path).toOption) :
    (judge read o).toOption = (judge read' o').toOption := by
  obtain ⟨ham, hcluster, hdir, hos, hqps, hgbps⟩ := hdemands
  have hpolicy : o.policy = o'.policy := by
    rw [Options.policy, Options.policy, hos, hqps, hgbps]
  simp only [evidence, List.forall_mem_cons, ham, hcluster, hdir, hos] at h
  obtain ⟨hamLog, hclusterLog, hamBaseline, hclusterBaseline, -⟩ := h
  simp only [judge, Baselines.read, toOption_bind, toOption_mark, toOption_mapError,
    toOption_loadWorkload_congr _ hamLog, toOption_loadWorkload_congr _ hclusterLog,
    toOption_readOne_congr _ hamBaseline, toOption_readOne_congr _ hclusterBaseline, ham, hcluster,
    hdir, hos, hpolicy]

/-- Where the artifact goes and where the numbers come from have no part in the judgement. Two runs
with the same demands on logs and baselines of the same contents have the same status and show the
same, whatever else stands on the command line, in the variables or in the files, and wherever the
artifact can be written: in the place of an input, or not at all. -/
theorem onTree_congr (hwords : Options.parse words = .ok o) (hwords' : Options.parse words' = .ok o')
    (hdemands : SameDemands o o')
    (hcontents : ∀ path ∈ evidence o,
      (files.read path).toOption = (files'.read path).toOption) :
    (onTree files environment words).status = (onTree files' environment' words').status ∧
    (onTree files environment words).output = (onTree files' environment' words').output := by
  have hjudge := toOption_judge_congr hdemands hcontents
  constructor
  · rw [status_onTree hwords, status_onTree hwords', hjudge]
  · rw [output_onTree hwords, output_onTree hwords', hjudge]

/-- One run keeps its artifact apart. The other overwrites a log with it, takes a directory for its
build cache, has a variable set, names other schemas and spells a tolerance in another way. -/
theorem onTree_sample_congr : ∃ files', (sampleFiles "").write "notes.txt" [] = .ok files' ∧
    (onTree (sampleFiles "") (fun _ => none)
      (sampleWords "10" (sampleSchemas ++ ["--output", "new.ndjson"]))).status =
    (onTree files' (fun name => if name = "RUNNER_OS" then some "Linux" else none)
      (sampleWords "1e1" ["--output", "am.ndjson", "--cmake-cache", "logs", "--debug",
        "--am-schema", "-", "--cluster-schema=x"])).status := by
  have hrun : ((sampleFiles "").write "notes.txt" []).toOption.any fun files' =>
      (Options.parse (sampleWords "10"
        (sampleSchemas ++ ["--output", "new.ndjson"]))).toOption.any fun o =>
      (Options.parse (sampleWords "1e1" ["--output", "am.ndjson", "--cmake-cache", "logs",
        "--debug", "--am-schema", "-", "--cluster-schema=x"])).toOption.any fun o' =>
      (o.am = o'.am ∧ o.cluster = o'.cluster ∧ o.baselineDir = o'.baselineDir ∧ o.os = o'.os ∧
        o.tolQps = o'.tolQps ∧ o.tolGbps = o'.tolGbps) ∧
      ∀ path ∈ evidence o,
        ((sampleFiles "").read path).toOption = (files'.read path).toOption := by
    decide +kernel
  simp only [Option.any_eq_true, toOption_eq_some_iff, decide_eq_true_eq] at hrun
  obtain ⟨files', hfiles', o, hwords, o', hwords', ⟨ham, hcluster, hdir, hos, hqps, hgbps⟩,
    hcontents⟩ := hrun
  exact ⟨files', hfiles', (onTree_congr hwords hwords' ⟨ham, hcluster, hdir, hos, hqps, hgbps⟩
    hcontents).1⟩

end PerfGate.Run
