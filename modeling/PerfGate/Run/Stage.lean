import PerfGate.Error

/-!
# Run — stages

A run goes through stages, and an error ends it in the stage where it arises. What is shown first is
the message of that stage.
-/

namespace PerfGate

/-- The part of a run in which an error arises. -/
inductive Stage where
  | load (workload : Workload)
  | select (workload : Workload)
  | group (workload : Workload)
  | baseline (os : String)

/-- The message that tells of a failed stage. -/
def Stage.message : Stage → String
  | .load w => "Failed to load " ++ w.tag ++ " benchmark log"
  | .select w => "Failed to filter " ++ w.tag ++ " records"
  | .group w => "Failed to aggregate " ++ w.tag ++ " trials"
  | .baseline os => "Failed to load baseline for OS '" ++ os ++ "'"

/-- Why a run ended early. -/
structure Abort where
  /-- The stage, where one is named. -/
  stage? : Option Stage
  cause : Error

/-- The message of a run that ended early: that of its stage, or that of the error itself. -/
def Abort.message (a : Abort) : String :=
  match a.stage? with
  | some stage => stage.message
  | none => a.cause.message

/-- The first line of the message. A line ends in a line feed, with or without a carriage return
before it. -/
def Abort.headline (a : Abort) : String :=
  let line := a.message.toList.takeWhile (· ≠ '\n')
  String.ofList (if line.getLast? = some '\r' then line.dropLast else line)

/-- What a stage gives, its errors marked with it. -/
def Stage.mark {α : Type} (stage : Stage) (result : Except Error α) : Except Abort α :=
  result.mapError fun cause => ⟨some stage, cause⟩

end PerfGate
