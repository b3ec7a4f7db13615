import LivePreview.Retry.Queue

/-!
The scheduler: the queue on a clock. Work that is ready is run in the order in which it became ready;
when nothing is ready the clock goes on to the next timer. Time counts whole milliseconds, and a timer
is due at the first of them that is not too early. Observers are told of the notes of the queue after
each change, one at a time; what they do in answer is noted behind them.
-/

namespace LivePreview.Retry

/-- What an attempt does: it changes the world, waits, holds names that others may want, and ends with
an outcome. -/
inductive Work (ω : Type) where
  | finish (outcome : Outcome)
  /-- Change the world; what comes next depends on the world after the change. -/
  | act (change : ω → ω) (next : ω → Work ω)
  | sleep (span : Span) (next : Work ω)
  /-- Wait until nobody holds the name, then hold it. -/
  | hold (name : String) (next : Work ω)
  /-- Let the name go to the one who has waited for it longest. -/
  | release (name : String) (next : Work ω)

/-- What is ready to run or waits for its time. -/
inductive Job (ω : Type) where
  /-- Begin an attempt at a task. -/
  | attempt (id : String)
  /-- Go on with an attempt. -/
  | resume (id : String) (work : Work ω)
  /-- Set a timer. -/
  | setTimer (timer : Timer)
  /-- A timer has run out. -/
  | expire (timer : Timer)
  /-- Whoever uses the scheduler goes on. -/
  | caller

/-- What an observer may ask of the scheduler. -/
inductive Call where
  | cancel
  | cancelAll
  | prune
  | stats
  | isIdle
  | get
  | retry
deriving DecidableEq, Repr

/-- The answer to a call. -/
inductive CallResult where
  | flag (b : Bool)
  | count (n : Nat)
  | stats (stats : Stats)
  | task (task? : Option Task)
  | refused (e : RetryError)
deriving DecidableEq, Repr

/-- When an observer answers a note. -/
inductive Trigger where
  | status (status : Status)
  | drained
deriving DecidableEq, Repr

/-- A call that an observer makes when it gets a certain note. -/
structure Reaction where
  trigger : Trigger
  /-- The only task to which the reaction applies. -/
  task? : Option String
  call : Call
  /-- The task that the call is about, if it is not that of the note. -/
  target? : Option String
  /-- How often the observer will still react. -/
  times : Nat
deriving DecidableEq, Repr

/-- What happened, with the time. -/
inductive Event where
  | status (task : Task) (time : Nat)
  | drained (time : Nat)
  /-- The work of a task was begun for the given time. -/
  | run (id : String) (number : Nat) (time : Nat)
  | reacted (call : Call) (target : String) (result : CallResult)
deriving DecidableEq, Repr

namespace Reaction

/-- The reaction is due at a note. -/
def isDue (note : Note) (reaction : Reaction) : Bool :=
  0 < reaction.times && match note, reaction.trigger with
    | .status task, .status status => task.status == status && reaction.task?.all (· == task.id)
    | .drained, .drained => reaction.task?.isNone
    | _, _ => false

/-- The reaction is used once. -/
def use (note : Note) (reaction : Reaction) : Reaction :=
  if reaction.isDue note then { reaction with times := reaction.times - 1 } else reaction

/-- The task that the call is about. -/
def target (note : Note) (reaction : Reaction) : String :=
  reaction.target?.getD <| match note with
    | .status task => task.id
    | .drained => ""

/-- How many reactions there can still be. -/
def budget : List Reaction → Nat
  | [] => 0
  | reaction :: reactions => reaction.times + budget reactions

-- Reactions that are due are used up.
theorem budget_map_use (note : Note) (reactions : List Reaction) :
    budget (reactions.map (use note)) + (reactions.filter (isDue note)).length =
      budget reactions := by
  induction reactions with
  | nil => rfl
  | cons reaction reactions ih =>
    by_cases h : reaction.isDue note = true
    · have hpos : 0 < reaction.times := by
        simp only [isDue, Bool.and_eq_true, decide_eq_true_eq] at h; exact h.1
      simp only [budget, List.map_cons, List.filter_cons, h, if_true, use,
        List.length_cons] at ih ⊢
      omega
    · simp only [budget, List.map_cons, List.filter_cons, h, use,
        Bool.false_eq_true, if_false] at ih ⊢
      omega

end Reaction

/-- A queue on a clock, with the world in which its tasks work. -/
structure Scheduler (ω : Type) where
  settings : Settings
  /-- The sample that spreads every delay. -/
  sample : Binary64
  queue : Queue
  world : ω
  /-- The work of each task, for the first time, the second time and so on. -/
  works : List (String × (Nat → Work ω))
  /-- The tasks whose work was begun, once for each time. -/
  runs : List String
  /-- The time in milliseconds. -/
  now : Nat
  ready : List (Job ω)
  /-- What waits for its time, in the order in which it will be ready. -/
  alarms : List (Nat × Job ω)
  /-- The names that are held, with those who wait for them. -/
  held : List (String × List (Job ω))
  /-- Whoever uses the scheduler waits for the queue to drain. -/
  awaited : Bool
  reactions : List Reaction
  /-- What happened, in order. -/
  events : List Event

namespace Scheduler

variable {ω : Type}

/-- A scheduler without tasks. -/
def start (settings : Settings) (world : ω) (reactions : List Reaction) : Scheduler ω :=
  { settings, world, reactions
    sample := .ofDecimal false 5 (-1)
    queue := .empty
    works := []
    runs := []
    now := 0
    ready := []
    alarms := []
    held := []
    awaited := false
    events := [] }

/-- Note an event. -/
def log (s : Scheduler ω) (event : Event) : Scheduler ω := { s with events := s.events ++ [event] }

/-- Launch what can be launched and make it ready; observers are told later. -/
def launchQuietly (s : Scheduler ω) : Scheduler ω :=
  let (queue, ids) := s.queue.launch s.settings
  { s with queue := queue, ready := s.ready ++ ids.map .attempt }

/-- Carry out the call of an observer. Of the notes that it causes observers are told later. -/
def carryOut (s : Scheduler ω) (call : Call) (target : String) : Scheduler ω :=
  match call with
  | .cancel =>
    match s.queue.cancel? target with
    | some queue => { s with queue := queue }.log (.reacted call target (.flag true))
    | none => s.log (.reacted call target (.flag false))
  | .cancelAll =>
    let (queue, count) := s.queue.cancelAll
    { s with queue := queue }.log (.reacted call target (.count count))
  | .prune =>
    let (queue, count) := s.queue.prune
    { s with queue := queue }.log (.reacted call target (.count count))
  | .stats => s.log (.reacted call target (.stats s.queue.stats))
  | .isIdle => s.log (.reacted call target (.flag s.queue.isIdle))
  | .get => s.log (.reacted call target (.task (s.queue.find? target)))
  | .retry =>
    match s.queue.retry target with
    | .ok (queue, task) =>
      { s with queue := queue }.launchQuietly.log (.reacted call target (.task (some task)))
    | .error e => s.log (.reacted call target (.refused e))

@[simp] theorem reactions_carryOut (s : Scheduler ω) (call : Call) (target : String) :
    (s.carryOut call target).reactions = s.reactions := by
  cases call <;> simp only [carryOut, log, launchQuietly]
  · cases s.queue.cancel? target <;> rfl
  · cases s.queue.retry target <;> rfl

/-- Let observers see a note; whoever waits for the queue to drain goes on. -/
def announce (s : Scheduler ω) (note : Note) : Scheduler ω :=
  match note with
  | .status task => s.log (.status task s.now)
  | .drained => s.log (.drained s.now)

/-- Carry out the calls that are due at a note, one after the other. -/
def react (s : Scheduler ω) (note : Note) (due : List Reaction) : Scheduler ω :=
  due.foldl (fun s reaction => s.carryOut reaction.call (reaction.target note)) s

@[simp] theorem reactions_react (s : Scheduler ω) (note : Note) (due : List Reaction) :
    (s.react note due).reactions = s.reactions := by
  induction due generalizing s with
  | nil => rfl
  | cons reaction due ih =>
    simpa [react] using ih (s.carryOut reaction.call (reaction.target note))

/-- After a note that the queue has drained, whoever waits for that is ready to go on. -/
def releaseCaller (s : Scheduler ω) (note : Note) : Scheduler ω :=
  match note with
  | .status _ => s
  | .drained =>
    if s.awaited then { s with awaited := false, ready := s.ready ++ [.caller] } else s

/-- Tell observers of one note, and let them react to it. -/
def notify (s : Scheduler ω) (note : Note) : Scheduler ω :=
  let due := s.reactions.filter (Reaction.isDue note)
  let announced := { s with reactions := s.reactions.map (Reaction.use note) }.announce note
  (announced.react note due).releaseCaller note

@[simp] theorem reactions_announce (s : Scheduler ω) (note : Note) :
    (s.announce note).reactions = s.reactions := by cases note <;> rfl

@[simp] theorem queue_announce (s : Scheduler ω) (note : Note) :
    (s.announce note).queue = s.queue := by cases note <;> rfl

@[simp] theorem reactions_releaseCaller (s : Scheduler ω) (note : Note) :
    (s.releaseCaller note).reactions = s.reactions := by
  cases note <;> simp only [releaseCaller]; split <;> rfl

@[simp] theorem queue_releaseCaller (s : Scheduler ω) (note : Note) :
    (s.releaseCaller note).queue = s.queue := by
  cases note <;> simp only [releaseCaller]; split <;> rfl

@[simp] theorem reactions_notify (s : Scheduler ω) (note : Note) :
    (s.notify note).reactions = s.reactions.map (Reaction.use note) := by simp [notify]

theorem queue_notify_of_none (s : Scheduler ω) (note : Note)
    (h : s.reactions.filter (Reaction.isDue note) = []) :
    (s.notify note).queue = s.queue := by simp [notify, h, react]

/-- The scheduler with other notes of which observers have not been told. -/
def withNotes (s : Scheduler ω) (notes : List Note) : Scheduler ω :=
  { s with queue := { s.queue with notes := notes } }

/-- Telling observers of a note uses up reactions, or else only the note. -/
theorem notify_decreases (s : Scheduler ω) (note : Note) (rest : List Note)
    (h : s.queue.notes = note :: rest) :
    Prod.Lex (· < ·) (· < ·)
      (Reaction.budget ((s.withNotes rest).notify note).reactions,
        ((s.withNotes rest).notify note).queue.notes.length)
      (Reaction.budget s.reactions, s.queue.notes.length) := by
  have hbudget := Reaction.budget_map_use note s.reactions
  have hreactions : ((s.withNotes rest).notify note).reactions =
    s.reactions.map (Reaction.use note) := reactions_notify _ _
  rw [hreactions]
  cases hdue : s.reactions.filter (Reaction.isDue note) with
  | nil =>
    rw [hdue, List.length_nil, Nat.add_zero] at hbudget
    rw [queue_notify_of_none (s.withNotes rest) note hdue, hbudget, h]
    exact Prod.Lex.right _ (Nat.lt_succ_self _)
  | cons first due =>
    rw [hdue, List.length_cons] at hbudget
    exact Prod.Lex.left _ _ (by omega)

/-- Tell observers of all notes, and of those that are added meanwhile. -/
def notifyAll (s : Scheduler ω) : Scheduler ω :=
  match _h : s.queue.notes with
  | [] => s
  | note :: rest => notifyAll ((s.withNotes rest).notify note)
termination_by (Reaction.budget s.reactions, s.queue.notes.length)
decreasing_by exact notify_decreases s note rest _h

/-- Launch what can be launched. Observers are told of it before it is made ready. -/
def launch (s : Scheduler ω) : Scheduler ω :=
  let (queue, ids) := s.queue.launch s.settings
  let s := { s with queue := queue }.notifyAll
  { s with ready := s.ready ++ ids.map .attempt }

/-- Add a task with its work. -/
def enqueue (s : Scheduler ω) (request : TaskRequest) (work : Nat → Work ω) :
    Scheduler ω × Task :=
  let task := s.queue.newTask s.settings request
  let s := { s with queue := s.queue.add task, works := (task.id, work) :: s.works }
  (s.notifyAll.launch, task)

/-- Cancel a task. -/
def cancel (s : Scheduler ω) (id : String) : Scheduler ω × Bool :=
  match s.queue.cancel? id with
  | some queue => ({ s with queue := queue }.notifyAll, true)
  | none => (s, false)

/-- Cancel every task that does not run. -/
def cancelAll (s : Scheduler ω) : Scheduler ω × Nat :=
  let (queue, count) := s.queue.cancelAll
  ({ s with queue := queue }.notifyAll, count)

/-- Put a failed or cancelled task back into the queue. -/
def retry (s : Scheduler ω) (id : String) : Scheduler ω × Except RetryError Task :=
  match s.queue.retry id with
  | .ok (queue, task) => ({ s with queue := queue }.notifyAll.launch, .ok task)
  | .error e => (s, .error e)

/-- Remove the tasks to which nothing more happens. -/
def prune (s : Scheduler ω) : Scheduler ω × Nat :=
  let (queue, count) := s.queue.prune
  ({ s with queue := queue }, count)

/-- The time at which a span from now on is over. -/
def dueAfter (s : Scheduler ω) (span : Span) : Nat := s.now + (span + 999999) / 1000000

/-- Something put among the alarms: behind those that are due at the same time or before. -/
def insertAlarm (due : Nat) (job : Job ω) : List (Nat × Job ω) → List (Nat × Job ω)
  | [] => [(due, job)]
  | alarm :: alarms =>
    if alarm.1 ≤ due then alarm :: insertAlarm due job alarms else (due, job) :: alarm :: alarms

/-- Have something made ready at a time. -/
def alarm (s : Scheduler ω) (due : Nat) (job : Job ω) : Scheduler ω :=
  { s with alarms := insertAlarm due job s.alarms }

/-- Note what came of an attempt. -/
def settle (s : Scheduler ω) (id : String) (outcome : Outcome) : Scheduler ω :=
  let (queue, timer?) := s.queue.finish s.settings s.sample id outcome
  let s := { s with queue := queue, ready := s.ready ++ timer?.toList.map Job.setTimer }
  s.notifyAll.launch

/-- Note that a timer has run out. A timer that is no longer set does nothing. -/
def expire (s : Scheduler ω) (timer : Timer) : Scheduler ω :=
  match s.queue.expire? timer.task timer.number with
  | some queue => { s with queue := queue }.notifyAll.launch
  | none => s

/-- Let a name go: it is held by the one who has waited longest, who goes on. -/
def release (s : Scheduler ω) (name : String) : Scheduler ω :=
  match s.held.lookup name with
  | some (job :: jobs) =>
    { s with
      held := s.held.map fun entry => if entry.1 == name then (name, jobs) else entry
      ready := s.ready ++ [job] }
  | _ => { s with held := s.held.filter (·.1 != name) }

/-- Do the work of an attempt until it waits or ends. -/
def perform (id : String) : Work ω → Scheduler ω → Scheduler ω
  | .finish outcome, s => s.settle id outcome
  | .act change next, s => perform id (next (change s.world)) { s with world := change s.world }
  | .sleep span next, s =>
    if s.dueAfter span ≤ s.now then perform id next s
    else s.alarm (s.dueAfter span) (.resume id next)
  | .hold name next, s =>
    match s.held.lookup name with
    | none => perform id next { s with held := (name, []) :: s.held }
    | some jobs =>
      { s with held := s.held.map fun entry =>
          if entry.1 == name then (name, jobs ++ [.resume id next]) else entry }
  | .release name next, s => perform id next (s.release name)

/-- Begin an attempt at a task. -/
def attempt (s : Scheduler ω) (id : String) : Scheduler ω :=
  let number := s.runs.count id + 1
  let s := { s with runs := id :: s.runs }.log (.run id number s.now)
  match s.works.lookup id with
  | some work => perform id (work number) s
  | none => s.settle id .returnedFalse

/-- Set a timer, unless it is no longer wanted. One that is due at once runs out at once. -/
def setTimer (s : Scheduler ω) (timer : Timer) : Scheduler ω :=
  if s.queue.isSet timer.task timer.number then
    if s.dueAfter timer.delay ≤ s.now then s.expire timer
    else s.alarm (s.dueAfter timer.delay) (.expire timer)
  else s

/-- Run a job. -/
def runJob (s : Scheduler ω) : Job ω → Scheduler ω
  | .attempt id => s.attempt id
  | .resume id work => perform id work s
  | .setTimer timer => s.setTimer timer
  | .expire timer => s.expire timer
  | .caller => s

/-- Go on to a time: what is due by then becomes ready. -/
def advanceTo (s : Scheduler ω) (time : Nat) : Scheduler ω :=
  { s with
    now := max s.now time
    ready := s.ready ++ (s.alarms.takeWhile (·.1 ≤ time)).map (·.2)
    alarms := s.alarms.dropWhile (·.1 ≤ time) }

/-- Run what is ready, and let time go on when nothing is, until whoever uses the scheduler goes on.
At most `fuel` steps are made. -/
def run : (fuel : Nat) → Scheduler ω → Scheduler ω
  | 0, s => s
  | fuel + 1, s =>
    match s.ready with
    | .caller :: ready => { s with ready := ready }
    | job :: ready => run fuel ({ s with ready := ready }.runJob job)
    | [] =>
      match s.alarms with
      | [] => s
      | (due, _) :: _ => run fuel (s.advanceTo due)

/-- The number of steps after which nothing is left to be done: each task has so many attempts left at
most, reactions may renew them, and an attempt takes few steps if its work waits a few times. -/
def horizon (s : Scheduler ω) : Nat :=
  let attempts := s.queue.tasks.foldr (·.maxAttempts + ·) 1
  12 * attempts * (Reaction.budget s.reactions + 1) + 2 * (s.ready.length + s.alarms.length) + 2

/-- Let a span of time pass. -/
def advance (s : Scheduler ω) (span : Span) : Scheduler ω :=
  if s.dueAfter span ≤ s.now then s
  else
    let s := s.alarm (s.dueAfter span) .caller
    s.run s.horizon

/-- Wait until the queue is idle, being told so `rounds` times at most. -/
def waitFor : (rounds : Nat) → Scheduler ω → Scheduler ω
  | 0, s => s
  | rounds + 1, s =>
    if s.queue.isIdle then s
    else waitFor rounds ({ s with awaited := true }.run s.horizon)

/-- Wait until the queue is idle. Only a reaction can put work into a queue that has drained. -/
def waitIdle (s : Scheduler ω) : Scheduler ω := s.waitFor (Reaction.budget s.reactions + 1)

end Scheduler

end LivePreview.Retry
