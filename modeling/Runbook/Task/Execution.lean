import Runbook.Remote.Transfer
import Runbook.Task.Command
import Runbook.Task.Description

set_option autoImplicit false

/-! # Running tasks

The tasks of a job run one after the other, and the first failure ends the job. A platform branch
runs on its platform only, and counts as done elsewhere. The tasks of a parallel group all run,
whatever becomes of the others; they are delivered in the order of the setting, and the first
failure that is delivered is the failure of the group. Each level puts an error of its own in front
of a failure, which names the task that failed. An interrupt passes through jobs as it is. -/

namespace Runbook

/-! ## Groups -/

/-- Goes through the outcomes of a group in the order of delivery. The tasks that are not delivered
    when one has failed are named in the report. -/
def deliver (outcomes : List (Except Failure Unit)) : List Nat → Action Unit
  | [] => pure ()
  | i :: rest =>
    match outcomes[i]? with
    | some (.error f) => do
      Console.debug ("parallel task " ++ toString i ++ " failed, detaching " ++ toString rest.length
        ++ " remaining")
      let pending := (rest.mergeSort (· ≤ ·)).map fun (n : Nat) => (n : Int)
      Effect.fail (f.because (.parallelTask i outcomes.length pending))
    | _ => do
      Console.debug ("parallel task " ++ toString i ++ " done")
      deliver outcomes rest

/-- Runs a group whose tasks are submitted by an action that yields their outcomes. -/
def runGroup (threads : Int) (submit : Action (List (Except Failure Unit))) : Action Unit := do
  Action.perform (.pool (max 1 threads))
  Effect.andThenAlways (do
    let outcomes ← submit
    let delivery := (← Effect.setting).delivery (← Effect.get).events
    deliver outcomes (delivery.order outcomes.length)) (Action.perform .shutdown)

namespace Task

mutual

/-- Runs a task. -/
def execute : Task → Action Unit
  | job name tasks => executeFrom name 0 tasks
  | onPlatform platform tasks => do
    if Platform.ofHost? (← Effect.setting).platform = some platform then
      executeFrom ("on-" ++ platform.name) 0 tasks
    else Console.debug ("skipping on-" ++ platform.name ++ " branch")
  | parallel tasks threads => runGroup threads (executeEach tasks)
  | print message => Action.writeLine message
  | run command => command.execute
  | ssh target commands => Session.batch target commands
  | transfer t => t.execute
  | probe name failure => do
    Action.perform (.ran name)
    match failure with
    | none => pure ()
    | some f => Effect.fail f

/-- Runs some tasks one after the other, from an index on. -/
def executeFrom (owner : String) (index : Nat) : List Task → Action Unit
  | [] => pure ()
  | t :: ts => do
    Console.taskStarted owner index (← Effect.ofExcept t.describe?)
    (execute t).because Failure.isException (.job owner index (some t.describe))
    executeFrom owner (index + 1) ts

/-- Runs some tasks, each to its end, and yields their outcomes. -/
def executeEach : List Task → Action (List (Except Failure Unit))
  | [] => pure []
  | t :: ts => do
    let outcome ← (execute t).attempt
    return outcome :: (← executeEach ts)

end

end Task

namespace Job

/-- Runs the tasks of a job. -/
def execute (j : Job) : Action Unit := j.task.execute

/-- The first job of a name. -/
def find (jobs : List Job) (name : String) : Except Failure Job :=
  match jobs.find? fun j => j.name = name with
  | some j => .ok j
  | none => .error (.of (.jobNotFound name (jobs.map Job.name)))

/-- Runs the job of a name, and says when it starts and when it has succeeded. -/
def run (jobs : List Job) (name : String) : Action Unit := do
  let j ← Effect.ofExcept (find jobs name)
  Console.jobStarted j.name j.tasks.length
  j.execute
  Console.success j.name

end Job
end Runbook
