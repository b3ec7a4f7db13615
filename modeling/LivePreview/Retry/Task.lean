import LivePreview.Diagnosis.Basic
import LivePreview.Retry.Settings

/-!
Tasks of the retry scheduler: their states, what came of their attempts, and counts of them.
-/

namespace LivePreview.Retry

/-- The state of a task. -/
inductive Status where
  | pending
  | inProgress
  /-- An attempt failed, and the task waits for the next one. -/
  | waiting
  | succeeded
  | failed
  | cancelled
deriving DecidableEq, Repr

namespace Status

/-- All states. -/
def all : List Status := [pending, inProgress, waiting, succeeded, failed, cancelled]

/-- The name of a state. -/
def name : Status → String
  | pending => "pending"
  | inProgress => "in-progress"
  | waiting => "waiting"
  | succeeded => "succeeded"
  | failed => "failed"
  | cancelled => "cancelled"

/-- Nothing more happens to the task by itself. -/
def isTerminal : Status → Bool
  | succeeded | failed | cancelled => true
  | _ => false

/-- The task runs or will run by itself. -/
def isLive : Status → Bool
  | pending | inProgress | waiting => true
  | _ => false

/-- The task can be cancelled. -/
def isCancellable : Status → Bool
  | pending | waiting => true
  | _ => false

/-- The task can be put back into the queue. -/
def isRetryable : Status → Bool
  | failed | cancelled => true
  | _ => false

end Status

/-- What came of an attempt. -/
inductive Outcome where
  | succeeded
  /-- The work was done and reports that it did not help. -/
  | returnedFalse
  | errored (message : String)
deriving DecidableEq, Repr

namespace Outcome

/-- The attempt succeeded. -/
def isSuccess : Outcome → Bool
  | succeeded => true
  | _ => false

/-- The outcome of work that broke down, with what it said last if it said anything. -/
def brokenDown (detail? : Option String) : Outcome :=
  errored ("execute panicked: " ++ detail?.getD "unknown panic")

end Outcome

/-- A task. -/
structure Task where
  id : String
  kind : ErrorKind
  status : Status
  /-- The attempts since the task was made or put back into the queue. -/
  attempts : Nat
  maxAttempts : Nat
  /-- The delay after the next failure. -/
  delay : Span
  /-- The delay after the first failure. -/
  baseDelay : Span
  priority : Int
  /-- How many tasks were made before this one. -/
  created : Nat
  /-- The task was attempted at some time. -/
  attempted : Bool
  lastResult? : Option Outcome
  /-- The timer that ends the waiting. -/
  timer? : Option Nat
deriving DecidableEq, Repr

/-- The task comes before another one: it has a higher priority, or the same and is older. -/
def Task.precedes (task other : Task) : Bool :=
  decide (other.priority < task.priority) ||
    (task.priority == other.priority && decide (task.created < other.created))

/-- Counts of tasks by state. -/
structure Stats where
  total : Nat
  pending : Nat
  inProgress : Nat
  waiting : Nat
  succeeded : Nat
  failed : Nat
  cancelled : Nat
deriving DecidableEq, Repr, Inhabited

/-- The counts of a list of tasks. -/
def Stats.ofTasks (tasks : List Task) : Stats :=
  let count (status : Status) := tasks.countP (·.status == status)
  ⟨tasks.length, count .pending, count .inProgress, count .waiting, count .succeeded, count .failed,
    count .cancelled⟩

end LivePreview.Retry
