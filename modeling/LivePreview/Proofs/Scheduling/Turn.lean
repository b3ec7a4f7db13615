import LivePreview.Proofs.Scheduling.Table

namespace LivePreview.Retry

-- What becomes of a task after each state.
def Status.leadsTo : Status → Status → Bool
  | .pending, .inProgress => true
  | .inProgress, .succeeded => true
  | .inProgress, .failed => true
  | .inProgress, .waiting => true
  | .waiting, .pending => true
  | .waiting, .cancelled => true
  | .pending, .cancelled => true
  | .failed, .pending => true
  | .cancelled, .pending => true
  | _, _ => false

-- Why the table of tasks is written.
inductive Cause where
  | enqueue (id : String)
  | cancel (id : String)
  | cancelAll
  | retry (id : String)
  | prune
  -- An attempt is launched, and will begin when its turn comes.
  | launch (id : String)
  -- A launched attempt begins: the work of the task is called.
  | invoke (id : String)
  | finish (id : String)
  | wake (id : String)
  -- The tasks are held in another order; no order is promised.
  | reorder
deriving DecidableEq, Repr

-- The writes of one task, each with its guard.
inductive Turn (settings : Settings) : Cause → Task → Task → Prop where
  | cancel (task : Task) (h : task.status.isCancellable = true) :
      Turn settings (.cancel task.id) task (Queue.cancelled task)
  | cancelAll (task : Task) (h : task.status.isCancellable = true) :
      Turn settings .cancelAll task (Queue.cancelled task)
  | retry (task : Task) (h : task.status.isRetryable = true) :
      Turn settings (.retry task.id) task (Queue.renewed task)
  | launch (task : Task) (h : task.status = .pending) :
      Turn settings (.launch task.id) task (Queue.started task)
  | finish (task : Task) (h : task.status = .inProgress) (number : Nat) (outcome : Outcome) :
      Turn settings (.finish task.id) task (Queue.attempted settings number task outcome)
  | wake (task : Task) (h : task.status = .waiting) :
      Turn settings (.wake task.id) task { task with status := .pending, timer? := none }

-- What holds of a task at any time.
structure Task.Sound (task : Task) : Prop where
  positive : 1 ≤ task.maxAttempts
  bounded : task.attempts ≤ task.maxAttempts
  -- A task that may still be launched, or was given up before, has an attempt left.
  left : task.status = .pending ∨ task.status = .cancelled → task.attempts < task.maxAttempts
  begun : task.status = .inProgress → 1 ≤ task.attempts
  backingOff : task.status = .waiting → 1 ≤ task.attempts ∧ task.attempts < task.maxAttempts
  timed : task.timer?.isSome = true ↔ task.status = .waiting
  failed : task.status = .failed → task.attempts = task.maxAttempts ∧
    ∃ outcome, task.lastResult? = some outcome ∧ outcome.isSuccess = false
  succeeded : task.status = .succeeded → task.lastResult? = some .succeeded

namespace Status

theorem isCancellable_iff {status : Status} :
    status.isCancellable = true ↔ status = .pending ∨ status = .waiting := by
  cases status <;> simp [isCancellable]

theorem isRetryable_iff {status : Status} :
    status.isRetryable = true ↔ status = .failed ∨ status = .cancelled := by
  cases status <;> simp [isRetryable]

-- A task that can be cancelled or put back into the queue does not run.
theorem ne_inProgress_of_isCancellable {status : Status} (h : status.isCancellable = true) :
    status ≠ .inProgress := by
  rintro rfl
  cases h

theorem ne_inProgress_of_isRetryable {status : Status} (h : status.isRetryable = true) :
    status ≠ .inProgress := by
  rintro rfl
  cases h

theorem leadsTo_ne {before after : Status} (h : before.leadsTo after = true) : after ≠ before := by
  rintro rfl
  cases after <;> simp [leadsTo] at h

end Status

-- An attempt ends in one of three ways; which one depends on its outcome and on the attempts left.
theorem attempted_cases (settings : Settings) (number : Nat) (task : Task) (outcome : Outcome) :
    (outcome = .succeeded ∧ Queue.attempted settings number task outcome =
      { task with lastResult? := some outcome, status := .succeeded }) ∨
    (outcome.isSuccess = false ∧ task.maxAttempts ≤ task.attempts ∧
      Queue.attempted settings number task outcome =
        { task with lastResult? := some outcome, status := .failed }) ∨
    (outcome.isSuccess = false ∧ task.attempts < task.maxAttempts ∧
      Queue.attempted settings number task outcome =
        { task with
          lastResult? := some outcome
          status := .waiting
          delay := grownDelay task.delay settings.multiplier settings.maxDelay
          timer? := some number }) := by
  by_cases hs : outcome.isSuccess = true
  · have he : outcome = .succeeded := by cases outcome <;> simp [Outcome.isSuccess] at hs ⊢
    exact .inl ⟨he, by simp [Queue.attempted, hs]⟩
  · rw [Bool.not_eq_true] at hs
    by_cases ha : task.maxAttempts ≤ task.attempts
    · exact .inr (.inl ⟨hs, ha, by simp [Queue.attempted, hs, ha]⟩)
    · exact .inr (.inr ⟨hs, by omega, by simp [Queue.attempted, hs, ha]⟩)

theorem Task.Sound.timer_eq_none {task : Task} (h : task.Sound) (hstatus : task.status ≠ .waiting) :
    task.timer? = none := by
  cases ht : task.timer? with
  | none => rfl
  | some number => exact absurd (h.timed.mp (by rw [ht]; rfl)) hstatus

namespace Turn

variable {settings : Settings} {cause : Cause} {before after : Task}

theorem id_eq (h : Turn settings cause before after) : after.id = before.id := by
  cases h with
  | finish _ _ number outcome =>
      rcases attempted_cases settings number before outcome with
        ⟨_, he⟩ | ⟨_, _, he⟩ | ⟨_, _, he⟩ <;> rw [he]
  | _ => rfl

-- What a task was made with stays.
theorem made_eq (h : Turn settings cause before after) :
    after.created = before.created ∧ after.maxAttempts = before.maxAttempts := by
  cases h with
  | finish _ _ number outcome =>
      rcases attempted_cases settings number before outcome with
        ⟨_, he⟩ | ⟨_, _, he⟩ | ⟨_, _, he⟩ <;> rw [he] <;> exact ⟨rfl, rfl⟩
  | _ => exact ⟨rfl, rfl⟩

theorem leadsTo (h : Turn settings cause before after) :
    before.status.leadsTo after.status = true := by
  cases h with
  | cancel _ h | cancelAll _ h =>
      rcases Status.isCancellable_iff.mp h with h | h <;> rw [h] <;> rfl
  | retry _ h => rcases Status.isRetryable_iff.mp h with h | h <;> rw [h] <;> rfl
  | launch _ h | wake _ h => rw [h]; rfl
  | finish _ h number outcome =>
      rcases attempted_cases settings number before outcome with
        ⟨_, he⟩ | ⟨_, _, he⟩ | ⟨_, _, he⟩ <;> rw [he, h] <;> rfl

theorem status_ne (h : Turn settings cause before after) : after.status ≠ before.status :=
  Status.leadsTo_ne h.leadsTo

theorem sound (h : Turn settings cause before after) (hs : before.Sound) : after.Sound := by
  cases h with
  | cancel _ h | cancelAll _ h =>
      have hleft : before.attempts < before.maxAttempts := by
        rcases Status.isCancellable_iff.mp h with h | h
        · exact hs.left (.inl h)
        · exact (hs.backingOff h).2
      constructor <;> simp [Queue.cancelled, hs.positive, hs.bounded, hleft]
  | retry _ h =>
      have hpos := hs.positive
      constructor <;> simp [Queue.renewed] <;> omega
  | launch _ h =>
      have hleft := hs.left (.inl h)
      have htimer := hs.timer_eq_none (by rw [h]; decide)
      constructor <;> simp [Queue.started, htimer] <;> omega
  | wake _ h =>
      have hleft := (hs.backingOff h).2
      constructor <;> simp [hs.positive, hs.bounded, hleft]
  | finish _ h number outcome =>
      have hpos := hs.positive
      have hbound := hs.bounded
      have hbegun := hs.begun h
      have htimer := hs.timer_eq_none (by rw [h]; decide)
      rcases attempted_cases settings number before outcome with
        ⟨ho, he⟩ | ⟨ho, hm, he⟩ | ⟨ho, hm, he⟩ <;> rw [he]
      · constructor <;> simp [ho, htimer, hpos, hbound]
      · constructor <;> simp [ho, htimer, hpos, hbound]
        omega
      · constructor <;> simp [hpos, hbound, hbegun, hm]

end Turn

end LivePreview.Retry
