import LivePreview.Retry.Backoff
import LivePreview.Retry.Task

/-!
The queue of the retry scheduler. Each change of a task leaves a note, in the order in which the
changes are made; a note that the queue has drained follows the change that left it idle. Work and
time are outside: the queue tells which tasks to start and which timers to set, and is told what
became of them.
-/

namespace LivePreview.Retry

/-- A note for observers. -/
inductive Note where
  | status (task : Task)
  | drained
deriving DecidableEq, Repr

/-- The tasks that the scheduler knows. -/
structure Queue where
  /-- The tasks in the order in which they were made. -/
  tasks : List Task
  /-- The number of attempts under way. -/
  active : Nat
  /-- The number of tasks ever made. -/
  created : Nat
  /-- The number of timers ever set. -/
  timers : Nat
  /-- There was work since the queue last drained, so a note is due once it is idle. -/
  drainDue : Bool
  /-- What observers have not been told yet. -/
  notes : List Note
deriving DecidableEq, Repr

/-- What a new task is to be. -/
structure TaskRequest where
  id : String
  kind : ErrorKind
  maxAttempts? : Option Nat
  priority? : Option Int
  baseDelay? : Option Span
deriving DecidableEq, Repr

/-- Why a task is not put back into the queue. -/
inductive RetryError where
  | notFound (id : String)
  | notRetryable (id : String) (status : Status)
deriving DecidableEq, Repr

/-- What a retry error is called. -/
def RetryError.message : RetryError → String
  | notFound id => s!"Task not found: {id}"
  | notRetryable id status => s!"Task {id} cannot be retried while {status.name}"

/-- A timer to be set for a task. -/
structure Timer where
  task : String
  number : Nat
  delay : Span
deriving DecidableEq, Repr

namespace Queue

/-- A queue without tasks. -/
def empty : Queue := ⟨[], 0, 0, 0, false, []⟩

/-- The task with an identifier. -/
def find? (queue : Queue) (id : String) : Option Task := queue.tasks.find? (·.id == id)

/-- Nothing runs and nothing will run by itself. -/
def isIdle (queue : Queue) : Bool := queue.active == 0 && !queue.tasks.any (·.status.isLive)

/-- The tasks in the given state, or all of them. -/
def tasksIn (queue : Queue) (status? : Option Status) : List Task :=
  queue.tasks.filter fun task => status?.all (task.status == ·)

/-- The counts of the tasks. -/
def stats (queue : Queue) : Stats := .ofTasks queue.tasks

/-- Put a changed task in the place of the old one and note the change. -/
def update (queue : Queue) (task : Task) : Queue :=
  { queue with
    tasks := queue.tasks.map fun other => if other.id = task.id then task else other
    notes := queue.notes ++ [.status task] }

/-- Note that the queue has drained, if it has. -/
def noteDrained (queue : Queue) : Queue :=
  if queue.drainDue && queue.isIdle then
    { queue with drainDue := false, notes := queue.notes ++ [.drained] }
  else queue

/-- The task that a request asks for. -/
def newTask (settings : Settings) (queue : Queue) (request : TaskRequest) : Task :=
  let base := min (request.baseDelay?.getD settings.baseDelay) settings.maxDelay
  { id := request.id
    kind := request.kind
    status := .pending
    attempts := 0
    maxAttempts := max (request.maxAttempts?.getD settings.maxAttempts) 1
    delay := base
    baseDelay := base
    priority := request.priority?.getD (settings.priorityOf request.kind)
    created := queue.created
    attempted := false
    lastResult? := none
    timer? := none }

/-- Add a new task. -/
def add (queue : Queue) (task : Task) : Queue :=
  { queue with
    tasks := queue.tasks.filter (·.id != task.id) ++ [task]
    created := queue.created + 1
    drainDue := true
    notes := queue.notes ++ [.status task] }

/-- A task as it is when it has been cancelled. -/
def cancelled (task : Task) : Task := { task with status := .cancelled, timer? := none }

/-- Cancel a task that does not run, if it is there and can be cancelled. -/
def cancel? (queue : Queue) (id : String) : Option Queue :=
  match queue.find? id with
  | none => none
  | some task =>
    if task.status.isCancellable then some (queue.update (cancelled task)).noteDrained else none

/-- Cancel every task that does not run. The number of them comes with the queue. -/
def cancelAll (queue : Queue) : Queue × Nat :=
  let affected := queue.tasks.filter (·.status.isCancellable)
  ((affected.foldl (fun queue task => queue.update (cancelled task)) queue).noteDrained,
    affected.length)

/-- A task as it is when it has been put back into the queue. -/
def renewed (task : Task) : Task :=
  { task with status := .pending, attempts := 0, delay := task.baseDelay, timer? := none }

/-- Put a failed or cancelled task back into the queue. -/
def retry (queue : Queue) (id : String) : Except RetryError (Queue × Task) :=
  match queue.find? id with
  | none => .error (.notFound id)
  | some task =>
    if task.status.isRetryable then
      .ok ({ queue.update (renewed task) with drainDue := true }, renewed task)
    else .error (.notRetryable id task.status)

/-- Remove the tasks to which nothing more happens. The number of them comes with the queue. -/
def prune (queue : Queue) : Queue × Nat :=
  let kept := queue.tasks.filter (!·.status.isTerminal)
  ({ queue with tasks := kept }, queue.tasks.length - kept.length)

/-- The pending task that comes before all others. -/
def foremost? (queue : Queue) : Option Task :=
  (queue.tasksIn (some .pending)).foldl (fun best? task =>
    match best? with
    | none => some task
    | some best => if task.precedes best then some task else some best) none

/-- A task as it is when an attempt at it begins. -/
def started (task : Task) : Task :=
  { task with status := .inProgress, attempts := task.attempts + 1, attempted := true }

/-- Begin an attempt at a task. -/
def start (queue : Queue) (task : Task) : Queue :=
  { queue.update (started task) with active := queue.active + 1 }

/-- Begin attempts at pending tasks as long as more may run. The tasks come with the queue, in the
order in which they are to be run. -/
def launch (settings : Settings) (queue : Queue) : Queue × List String :=
  if queue.active < settings.concurrency then
    match queue.foremost? with
    | none => (queue.noteDrained, [])
    | some task =>
      let (later, ids) := launch settings (queue.start task)
      (later, task.id :: ids)
  else (queue.noteDrained, [])
termination_by settings.concurrency - queue.active
decreasing_by simp only [start]; omega

/-- A task as it is after an attempt: `number` is that of the timer to be set if it has to wait. -/
def attempted (settings : Settings) (number : Nat) (task : Task) (outcome : Outcome) : Task :=
  let task := { task with lastResult? := some outcome }
  if outcome.isSuccess then { task with status := .succeeded }
  else if task.maxAttempts ≤ task.attempts then { task with status := .failed }
  else
    { task with
      status := .waiting
      delay := grownDelay task.delay settings.multiplier settings.maxDelay
      timer? := some number }

/-- Note what came of an attempt at a task. If the task has to wait, the timer comes with the queue;
the sample, between 0 and 1, spreads its delay. -/
def finish (settings : Settings) (sample : Binary64) (queue : Queue) (id : String)
    (outcome : Outcome) : Queue × Option Timer :=
  let queue := { queue with active := queue.active - 1 }
  match queue.find? id with
  | none => (queue, none)
  | some task =>
    let after := attempted settings queue.timers task outcome
    if after.status = .waiting then
      let delay := spreadDelay task.delay settings.jitter settings.maxDelay sample
      ({ queue.update after with timers := queue.timers + 1 }, some ⟨id, queue.timers, delay⟩)
    else (queue.update after, none)

/-- The timer of a task is set. -/
def isSet (queue : Queue) (id : String) (number : Nat) : Bool :=
  (queue.find? id).any (·.timer? == some number)

/-- Note that a timer has run out, if it is still set. -/
def expire? (queue : Queue) (id : String) (number : Nat) : Option Queue :=
  match queue.find? id with
  | none => none
  | some task =>
    if task.status = .waiting ∧ task.timer? = some number then
      some (queue.update { task with status := .pending, timer? := none })
    else none

end Queue

end LivePreview.Retry
