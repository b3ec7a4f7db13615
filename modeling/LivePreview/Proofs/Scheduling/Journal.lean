import LivePreview.Retry.Scheduler
import LivePreview.Proofs.Scheduling.Ledger

namespace LivePreview.Retry

namespace Queue

-- The writes by which tasks are cancelled one after the other.
def cancelMoments : Queue → List Task → List Moment
  | _, [] => []
  | queue, task :: tasks =>
      ⟨.cancelAll, (queue.update (cancelled task)).tasks⟩ ::
        cancelMoments (queue.update (cancelled task)) tasks

-- The writes by which attempts are launched, in the order of `launch`.
def launchMoments (settings : Settings) (queue : Queue) : List Moment :=
  if queue.active < settings.concurrency then
    match queue.foremost? with
    | none => []
    | some task =>
        ⟨.launch task.id, (queue.start task).tasks⟩ :: launchMoments settings (queue.start task)
  else []
termination_by settings.concurrency - queue.active
decreasing_by simp only [start]; omega

end Queue

-- The writes that the operations of the scheduler make, in order. Each function below goes the
-- way of the operation after which it is named, and notes the table after each write on that way.
namespace Scheduler

variable {ω : Type}

def callMoments (s : Scheduler ω) (call : Call) (target : String) : List Moment :=
  match call with
  | .cancel =>
      match s.queue.cancel? target with
      | some queue => [⟨.cancel target, queue.tasks⟩]
      | none => []
  | .cancelAll => s.queue.cancelMoments (s.queue.tasks.filter (·.status.isCancellable))
  | .prune => [⟨.prune, s.queue.prune.1.tasks⟩]
  | .retry =>
      match s.queue.retry target with
      | .ok (queue, _) => ⟨.retry target, queue.tasks⟩ :: queue.launchMoments s.settings
      | .error _ => []
  | .stats | .isIdle | .get => []

def reactMoments (note : Note) : Scheduler ω → List Reaction → List Moment
  | _, [] => []
  | s, reaction :: due =>
      s.callMoments reaction.call (reaction.target note) ++
        reactMoments note (s.carryOut reaction.call (reaction.target note)) due

def notifyMoments (s : Scheduler ω) (note : Note) : List Moment :=
  reactMoments note
    ({ s with reactions := s.reactions.map (Reaction.use note) }.announce note)
    (s.reactions.filter (Reaction.isDue note))

def notifyAllMoments (s : Scheduler ω) : List Moment :=
  match _h : s.queue.notes with
  | [] => []
  | note :: rest =>
      (s.withNotes rest).notifyMoments note ++ notifyAllMoments ((s.withNotes rest).notify note)
termination_by (Reaction.budget s.reactions, s.queue.notes.length)
decreasing_by exact notify_decreases s note rest _h

section Notes

variable {s : Scheduler ω} {note : Note} {rest : List Note}

theorem notifyAll_of_nil (h : s.queue.notes = []) : s.notifyAll = s := by
  rw [notifyAll.eq_def]
  split
  · rfl
  · rename_i heq
    rw [h] at heq
    cases heq

theorem notifyAll_of_cons (h : s.queue.notes = note :: rest) :
    s.notifyAll = ((s.withNotes rest).notify note).notifyAll := by
  rw [notifyAll.eq_def]
  split <;> rename_i heq <;> rw [h] at heq <;> cases heq
  rfl

theorem notifyAllMoments_of_nil (h : s.queue.notes = []) : s.notifyAllMoments = [] := by
  rw [notifyAllMoments.eq_def]
  split
  · rfl
  · rename_i heq
    rw [h] at heq
    cases heq

theorem notifyAllMoments_of_cons (h : s.queue.notes = note :: rest) :
    s.notifyAllMoments = (s.withNotes rest).notifyMoments note ++
      notifyAllMoments ((s.withNotes rest).notify note) := by
  rw [notifyAllMoments.eq_def]
  split <;> rename_i heq <;> rw [h] at heq <;> cases heq
  rfl

end Notes

def launchMoments (s : Scheduler ω) : List Moment :=
  s.queue.launchMoments s.settings ++
    { s with queue := (s.queue.launch s.settings).1 }.notifyAllMoments

-- The writes of an operation that launches what it can at its end.
def launchAfterMoments (s : Scheduler ω) : List Moment :=
  s.notifyAllMoments ++ s.notifyAll.launchMoments

def enqueueMoments (s : Scheduler ω) (request : TaskRequest) (work : Nat → Work ω) :
    List Moment :=
  let task := s.queue.newTask s.settings request
  ⟨.enqueue task.id, (s.queue.add task).tasks⟩ ::
    { s with queue := s.queue.add task, works := (task.id, work) :: s.works }.launchAfterMoments

def cancelMoments (s : Scheduler ω) (id : String) : List Moment :=
  match s.queue.cancel? id with
  | some queue => ⟨.cancel id, queue.tasks⟩ :: { s with queue := queue }.notifyAllMoments
  | none => []

def cancelAllMoments (s : Scheduler ω) : List Moment :=
  s.queue.cancelMoments (s.queue.tasks.filter (·.status.isCancellable)) ++
    { s with queue := s.queue.cancelAll.1 }.notifyAllMoments

def retryMoments (s : Scheduler ω) (id : String) : List Moment :=
  match s.queue.retry id with
  | .ok (queue, _) => ⟨.retry id, queue.tasks⟩ :: { s with queue := queue }.launchAfterMoments
  | .error _ => []

def pruneMoments (s : Scheduler ω) : List Moment := [⟨.prune, s.queue.prune.1.tasks⟩]

def settleMoments (s : Scheduler ω) (id : String) (outcome : Outcome) : List Moment :=
  let (queue, timer?) := s.queue.finish s.settings s.sample id outcome
  let s := { s with queue := queue, ready := s.ready ++ timer?.toList.map Job.setTimer }
  ⟨.finish id, queue.tasks⟩ :: s.launchAfterMoments

def expireMoments (s : Scheduler ω) (timer : Timer) : List Moment :=
  match s.queue.expire? timer.task timer.number with
  | some queue => ⟨.wake timer.task, queue.tasks⟩ :: { s with queue := queue }.launchAfterMoments
  | none => []

def performMoments (id : String) : Work ω → Scheduler ω → List Moment
  | .finish outcome, s => s.settleMoments id outcome
  | .act change next, s =>
      performMoments id (next (change s.world)) { s with world := change s.world }
  | .sleep span next, s => if s.dueAfter span ≤ s.now then performMoments id next s else []
  | .hold name next, s =>
      match s.held.lookup name with
      | none => performMoments id next { s with held := (name, []) :: s.held }
      | some _ => []
  | .release name next, s => performMoments id next (s.release name)

def attemptMoments (s : Scheduler ω) (id : String) : List Moment :=
  let number := s.runs.count id + 1
  let begun := { s with runs := id :: s.runs }.log (.run id number s.now)
  ⟨.invoke id, s.queue.tasks⟩ ::
    match begun.works.lookup id with
    | some work => performMoments id (work number) begun
    | none => begun.settleMoments id .returnedFalse

def setTimerMoments (s : Scheduler ω) (timer : Timer) : List Moment :=
  if s.queue.isSet timer.task timer.number then
    if s.dueAfter timer.delay ≤ s.now then s.expireMoments timer else []
  else []

def jobMoments (s : Scheduler ω) : Job ω → List Moment
  | .attempt id => s.attemptMoments id
  | .resume id work => performMoments id work s
  | .setTimer timer => s.setTimerMoments timer
  | .expire timer => s.expireMoments timer
  | .caller => []

section Answers

variable {s : Scheduler ω} {id : String}

theorem cancel_accepted (h : (s.cancel id).2 = true) :
    ∃ table rest, s.cancelMoments id = ⟨.cancel id, table⟩ :: rest := by
  unfold cancel at h
  unfold cancelMoments
  cases hcancel : s.queue.cancel? id with
  | none => simp [hcancel] at h
  | some queue => exact ⟨_, _, rfl⟩

theorem cancel_refused (h : (s.cancel id).2 = false) :
    s.cancelMoments id = [] ∧ (s.cancel id).1 = s := by
  unfold cancel at h ⊢
  unfold cancelMoments
  cases hcancel : s.queue.cancel? id with
  | none => exact ⟨rfl, rfl⟩
  | some queue => simp [hcancel] at h

theorem retry_accepted {task : Task} (h : (s.retry id).2 = .ok task) :
    ∃ table rest, s.retryMoments id = ⟨.retry id, table⟩ :: rest := by
  unfold retry at h
  unfold retryMoments
  cases hretry : s.queue.retry id with
  | error e => simp [hretry] at h
  | ok result => exact ⟨_, _, rfl⟩

theorem retry_refused {e : RetryError} (h : (s.retry id).2 = .error e) :
    s.retryMoments id = [] ∧ (s.retry id).1 = s := by
  unfold retry at h ⊢
  unfold retryMoments
  cases hretry : s.queue.retry id with
  | error e => exact ⟨rfl, rfl⟩
  | ok result => simp [hretry] at h

end Answers

-- One operation or event, with the writes that it makes. Jobs that are ready are run and alarms
-- ring in any order, time and the world outside go on as they like, and no order of the table is
-- promised. A new task has an identifier that no task had before: identifiers are drawn at random
-- from a space so large that they are taken to be unique.
inductive Step : Scheduler ω → List Moment → Scheduler ω → Prop where
  | enqueue (s : Scheduler ω) (request : TaskRequest) (work : Nat → Work ω)
      (hfresh : request.id ∉ s.works.map Prod.fst) :
      Step s (s.enqueueMoments request work) (s.enqueue request work).1
  | cancel (s : Scheduler ω) (id : String) : Step s (s.cancelMoments id) (s.cancel id).1
  | cancelAll (s : Scheduler ω) : Step s s.cancelAllMoments s.cancelAll.1
  | retry (s : Scheduler ω) (id : String) : Step s (s.retryMoments id) (s.retry id).1
  | prune (s : Scheduler ω) : Step s s.pruneMoments s.prune.1
  | job (s : Scheduler ω) (job : Job ω) (earlier later : List (Job ω))
      (hready : s.ready = earlier ++ job :: later) :
      Step s ({ s with ready := earlier ++ later }.jobMoments job)
        ({ s with ready := earlier ++ later }.runJob job)
  | ring (s : Scheduler ω) (due : Nat) (job : Job ω) (earlier later : List (Nat × Job ω))
      (halarms : s.alarms = earlier ++ (due, job) :: later) :
      Step s [] { s with alarms := earlier ++ later, ready := s.ready ++ [job] }
  | sleep (s : Scheduler ω) (due : Nat) : Step s [] (s.alarm due .caller)
  | outside (s : Scheduler ω) (world : ω) (now : Nat) (sample : Binary64) (awaited : Bool) :
      Step s [] { s with world := world, now := now, sample := sample, awaited := awaited }
  | reorder (s : Scheduler ω) (tasks : List Task) (hperm : tasks.Perm s.queue.tasks) :
      Step s [⟨.reorder, tasks⟩] { s with queue := { s.queue with tasks := tasks } }

-- A run from a scheduler without tasks: the schedulers passed, the writes made, and the scheduler
-- reached.
inductive Run (settings : Settings) (world : ω) (reactions : List Reaction) :
    List (Scheduler ω) → List Moment → Scheduler ω → Prop where
  | start : Run settings world reactions [] [] (.start settings world reactions)
  | step {past : List (Scheduler ω)} {journal moments : List Moment} {s s' : Scheduler ω}
      (hrun : Run settings world reactions past journal s) (hstep : Step s moments s') :
      Run settings world reactions (past ++ [s]) (journal ++ moments) s'

-- A scheduler to which one task is given, once the first attempt at the task has been made.
def enqueueFirst (settings : Settings) (world : ω) (request : TaskRequest)
    (work : Nat → Work ω) : Scheduler ω :=
  ((Scheduler.start settings world []).enqueue request work).1

def attemptFirst (settings : Settings) (world : ω) (request : TaskRequest)
    (work : Nat → Work ω) : Scheduler ω :=
  { enqueueFirst settings world request work with ready := [] }.runJob (.attempt request.id)

section First

variable (settings : Settings) (world : ω) (request : TaskRequest) (work : Nat → Work ω)

theorem Run.enqueueFirst : Run settings world [] [.start settings world []]
    ((Scheduler.start settings world []).enqueueMoments request work)
    (enqueueFirst settings world request work) :=
  .step .start (.enqueue _ request work (by simp [Scheduler.start]))

-- The first task is launched at once.
theorem enqueueFirst_launched (hroom : 0 < settings.concurrency) :
    (Scheduler.enqueueFirst settings world request work).ready = [.attempt request.id] ∧
      (Scheduler.enqueueFirst settings world request work).works = [(request.id, work)] := by
  simp [Scheduler.enqueueFirst, start, enqueue, launch, notifyAll, notify, withNotes, announce,
    react, releaseCaller, log, hroom, Queue.launch, Queue.foremost?, Queue.tasksIn, Queue.add,
    Queue.empty, Queue.newTask, Queue.start, Queue.started, Queue.update, Queue.noteDrained,
    Queue.isIdle]

theorem Run.attemptFirst (hroom : 0 < settings.concurrency) :
    Run settings world []
      [.start settings world [], Scheduler.enqueueFirst settings world request work]
      ((Scheduler.start settings world []).enqueueMoments request work ++
        { Scheduler.enqueueFirst settings world request work with ready := [] }.attemptMoments
          request.id)
      (Scheduler.attemptFirst settings world request work) :=
  (Run.enqueueFirst settings world request work).step
    (.job _ (.attempt request.id) [] [] (enqueueFirst_launched settings world request work hroom).1)

end First

section Reached

variable {ω : Type} {settings : Settings} {world : ω} {reactions : List Reaction}
  {s : Scheduler ω}

-- Some run leads to the scheduler.
def Reached (settings : Settings) (world : ω) (reactions : List Reaction) (s : Scheduler ω) :
    Prop :=
  ∃ past journal, Run settings world reactions past journal s

theorem Reached.step (h : Reached settings world reactions s) {moments : List Moment}
    {s' : Scheduler ω} (hstep : Step s moments s') : Reached settings world reactions s' := by
  obtain ⟨past, journal, hrun⟩ := h
  exact ⟨_, _, hrun.step hstep⟩

-- Alarms that ring one after the other.
private theorem Reached.ringEach {taken later : List (Nat × Job ω)}
    (h : Reached settings world reactions s) (halarms : s.alarms = taken ++ later) :
    Reached settings world reactions
      { s with alarms := later, ready := s.ready ++ taken.map Prod.snd } := by
  induction taken generalizing s with
  | nil =>
      rw [List.nil_append] at halarms
      rw [← halarms, List.map_nil, List.append_nil]
      exact h
  | cons alarm taken ih =>
      obtain ⟨due, job⟩ := alarm
      have hring := h.step (.ring s due job [] (taken ++ later) halarms)
      have hrest := ih hring rfl
      rw [List.append_assoc] at hrest
      exact hrest

theorem Reached.advanceTo (h : Reached settings world reactions s) (time : Nat) :
    Reached settings world reactions (s.advanceTo time) := by
  have hsplit : s.alarms =
      s.alarms.takeWhile (·.1 ≤ time) ++ s.alarms.dropWhile (·.1 ≤ time) :=
    List.takeWhile_append_dropWhile.symm
  exact (h.ringEach hsplit).step (.outside _ s.world (max s.now time) s.sample s.awaited)

-- What runs the scheduler takes one job or one alarm after the other, so what holds along every run
-- holds of it.
theorem Reached.run (h : Reached settings world reactions s) (fuel : Nat) :
    Reached settings world reactions (s.run fuel) := by
  induction fuel generalizing s with
  | zero => exact h
  | succ fuel ih =>
      unfold Scheduler.run
      split
      · rename_i ready hready
        exact h.step (.job s .caller [] ready hready)
      · rename_i job ready _ hready
        exact ih (h.step (.job s job [] ready hready))
      · split
        · exact h
        · exact ih (h.advanceTo _)

theorem Reached.advance (h : Reached settings world reactions s) (span : Span) :
    Reached settings world reactions (s.advance span) := by
  unfold Scheduler.advance
  split
  · exact h
  · exact (h.step (.sleep s (s.dueAfter span))).run _

theorem Reached.waitFor (h : Reached settings world reactions s) (rounds : Nat) :
    Reached settings world reactions (s.waitFor rounds) := by
  induction rounds generalizing s with
  | zero => exact h
  | succ rounds ih =>
      unfold Scheduler.waitFor
      split
      · exact h
      · exact ih ((h.step (.outside s s.world s.now s.sample true)).run _)

theorem Reached.waitIdle (h : Reached settings world reactions s) :
    Reached settings world reactions s.waitIdle :=
  h.waitFor _

end Reached

end Scheduler

end LivePreview.Retry
