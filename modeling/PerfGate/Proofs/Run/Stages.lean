import PerfGate.Proofs.Attribution.Selection
import PerfGate.Run.Judgement

/-!
# Run — the first fault ends a run

A run is judged if nothing is wrong with what it reads. What can be wrong is said check by check,
each looked at by itself (`Run.fault?`). Several checks can fail in one run; the error of the run is
that of the first of them in the order of `Check.order` (`error?_judge`), and a run without a fault
is judged on what the checks passed (`judged_of_judge`).
-/

namespace PerfGate

/-- The path of a workload's log. -/
def Options.log (o : Options) : Workload → String
  | .am => o.am
  | .cluster => o.cluster

/-- The groups of a workload. -/
def Judgement.groups (j : Judgement) : Workload → Grouping
  | .am => j.am
  | .cluster => j.cluster

namespace Run

/-! ## Checks -/

/-- What has to be right before a run is judged. -/
inductive Check where
  /-- The log can be read, and every line that looks like a record is one. -/
  | load (w : Workload)
  /-- No record carries the fields of both workloads. -/
  | select (w : Workload)
  /-- The records that are kept lack no field. -/
  | require (w : Workload)
  /-- The records that are kept are trials. -/
  | trials (w : Workload)
  /-- The baseline document can be read and is complete. -/
  | baseline (w : Workload)
  /-- The tolerances make sense. -/
  | policy
deriving DecidableEq

/-- The order in which faults are reported. -/
def Check.order : List Check :=
  [.load .am, .select .am, .require .am, .load .cluster, .select .cluster, .require .cluster,
    .trials .am, .trials .cluster, .baseline .am, .baseline .cluster, .policy]

variable (read : FileReader) (o : Options)

/-- The records of a workload's log. -/
def records? (w : Workload) : Option (List Record) := (Log.load read (o.log w)).toOption

/-- The records of a workload that are kept. -/
def rows? (w : Workload) : Option (List Record) :=
  (records? read o w).bind fun records => (w.select records).toOption

/-- What a check finds to be wrong, whatever the other checks find. A check of the records of a log
finds nothing if there are none. -/
def fault? : Check → Option Abort
  | .load w => (error? (Log.load read (o.log w))).map fun cause => ⟨some (.load w), cause⟩
  | .select w =>
    (records? read o w).bind fun records =>
      (error? (w.select records)).map fun cause => ⟨some (.select w), cause⟩
  | .require w =>
    (rows? read o w).bind fun rows => (error? (w.require rows)).map fun cause => ⟨none, cause⟩
  | .trials w =>
    (rows? read o w).bind fun rows =>
      (error? (Grouping.ofRecords w rows)).map fun cause => ⟨some (.group w), cause⟩
  | .baseline w =>
    (error? (Baselines.readOne read (Baselines.directory o.baselineDir o.os) w)).map
      fun cause => ⟨some (.baseline o.os), cause⟩
  | .policy => o.policy.fault?.map fun fault => ⟨none, .invalidPolicy fault⟩

variable {read o}

/-- Records that were kept are never refused for what they lack. -/
theorem fault?_require (w : Workload) : fault? read o (.require w) = none := by
  unfold fault? rows?
  rw [Option.bind_eq_none_iff]
  intro rows hrows
  obtain ⟨records, _, hselect⟩ := Option.bind_eq_some_iff.1 hrows
  rw [Workload.require_of_select (toOption_eq_some_iff.1 hselect)]
  rfl

/-! ## The first fault -/

theorem error?_mark {α : Type} (stage : Stage) (x : Except Error α) :
    error? (stage.mark x) = (error? x).map fun cause => ⟨some stage, cause⟩ := by
  cases x with
  | error e => rfl
  | ok a => rfl

theorem error?_mapError {ε ε' α : Type} (x : Except ε α) (f : ε → ε') :
    error? (x.mapError f) = (error? x).map f := by
  cases x with
  | error e => rfl
  | ok a => rfl

theorem mark_eq_ok_iff {α : Type} {stage : Stage} {x : Except Error α} {a : α} :
    stage.mark x = .ok a ↔ x = .ok a := mapError_eq_ok_iff

theorem error?_loadWorkload (w : Workload) :
    error? (loadWorkload read (o.log w) w) =
      [Check.load w, .select w, .require w].findSome? (fault? read o) := by
  refine error?_bind_eq [Check.load w] ?_ fun records hrecords => ?_
  · rw [error?_mark, List.findSome?_singleton]
    rfl
  have hrecords : records? read o w = some records :=
    toOption_eq_some_iff.2 (mark_eq_ok_iff.1 hrecords)
  refine error?_bind_eq [Check.select w] ?_ fun rows hrows => ?_
  · rw [error?_mark, List.findSome?_singleton, fault?, hrecords]
    rfl
  have hrows : rows? read o w = some rows := by
    rw [rows?, hrecords]
    exact toOption_eq_some_iff.2 (mark_eq_ok_iff.1 hrows)
  refine error?_bind_eq [Check.require w] ?_ fun _ _ => rfl
  rw [error?_mapError, List.findSome?_singleton, fault?, hrows]
  rfl

theorem rows?_of_loadWorkload {w : Workload} {rows : List Record}
    (h : loadWorkload read (o.log w) w = .ok rows) : rows? read o w = some rows := by
  simp only [loadWorkload, bind_eq_ok_iff, mark_eq_ok_iff] at h
  obtain ⟨records, hrecords, rows', hrows, _, _, heq⟩ := h
  cases heq
  rw [rows?, records?, toOption_eq_some_iff.2 hrecords]
  exact toOption_eq_some_iff.2 hrows

theorem error?_baselines :
    error? ((Stage.baseline o.os).mark (Baselines.read read o.baselineDir o.os)) =
      [Check.baseline .am, .baseline .cluster].findSome? (fault? read o) := by
  rw [error?_mark]
  simp only [Baselines.read, List.findSome?_cons, List.findSome?_nil, fault?]
  cases Baselines.readOne read (Baselines.directory o.baselineDir o.os) .am with
  | error e => rfl
  | ok am =>
      cases Baselines.readOne read (Baselines.directory o.baselineDir o.os) .cluster with
      | error e => rfl
      | ok cluster => rfl

theorem error?_make (first second : Grouping) (b : Baselines) (p : Policy) :
    error? (Assessment.make first second b p) = p.fault?.map .invalidPolicy := by
  unfold Assessment.make
  cases p.fault? with
  | none => rfl
  | some fault => rfl

/-- **A run fails with its first fault**, and if there is none it is judged. -/
theorem error?_judge : error? (judge read o) = Check.order.findSome? (fault? read o) := by
  refine error?_bind_eq [Check.load .am, .select .am, .require .am] (error?_loadWorkload .am)
    fun amRows hamRows => ?_
  refine error?_bind_eq [Check.load .cluster, .select .cluster, .require .cluster]
    (error?_loadWorkload .cluster) fun clusterRows hclusterRows => ?_
  refine error?_bind_eq [Check.trials .am] ?_ fun am _ => ?_
  · rw [error?_mark, List.findSome?_singleton, fault?, rows?_of_loadWorkload hamRows]
    rfl
  refine error?_bind_eq [Check.trials .cluster] ?_ fun cluster _ => ?_
  · rw [error?_mark, List.findSome?_singleton, fault?, rows?_of_loadWorkload hclusterRows]
    rfl
  refine error?_bind_eq [Check.baseline .am, .baseline .cluster] error?_baselines
    fun baselines _ => ?_
  refine error?_bind_eq [Check.policy] ?_ fun _ _ => rfl
  rw [error?_mapError, error?_make, List.findSome?_singleton, fault?, Option.map_map]
  rfl

/-! ## What is judged -/

/-- A judgement of the files and the options: the groups are those of the records of each log that
belong to the workload, and they are held against the baselines under the policy. -/
structure Judged (read : FileReader) (o : Options) (j : Judgement) : Prop where
  groups : ∀ w, ∃ records rows, Log.load read (o.log w) = .ok records ∧
    w.select records = .ok rows ∧ Grouping.ofRecords w rows = .ok (j.groups w)
  assessment : ∃ b : Baselines,
    (∀ w, Baselines.readOne read (Baselines.directory o.baselineDir o.os) w = .ok (b.of w)) ∧
    Assessment.make j.am j.cluster b o.policy = .ok j.assessment

theorem judged_of_judge {j : Judgement} (h : judge read o = .ok j) : Judged read o j := by
  simp only [judge, loadWorkload, Baselines.read, bind_eq_ok_iff, mark_eq_ok_iff,
    mapError_eq_ok_iff] at h
  obtain ⟨_, ⟨_, hamRecords, _, hamRows, _, _, hamPure⟩,
    _, ⟨_, hclusterRecords, _, hclusterRows, _, _, hclusterPure⟩, am, ham, cluster, hcluster,
    _, ⟨_, hamBaseline, _, hclusterBaseline, hbPure⟩, a, ha, hjPure⟩ := h
  cases hamPure
  cases hclusterPure
  cases hbPure
  cases hjPure
  constructor
  · intro w
    cases w with
    | am => exact ⟨_, _, hamRecords, hamRows, ham⟩
    | cluster => exact ⟨_, _, hclusterRecords, hclusterRows, hcluster⟩
  · refine ⟨_, ?_, ha⟩
    intro w
    cases w with
    | am => exact hamBaseline
    | cluster => exact hclusterBaseline

end Run

end PerfGate
