import LivePreview.Proofs.Scheduling.Course
import LivePreview.Proofs.Scheduling.Settled

namespace LivePreview.Retry

variable {ω : Type}

-- A task that is launched is pending until then, and comes before all others that are pending.
theorem not_precedes_launched {settings : Settings} {earlier later : List Moment} {moment : Moment}
    (h : Ledger.empty.Lawful settings (earlier ++ moment :: later)) {before after other : Task}
    (hbefore : before ∈ tableAfter earlier) (hafter : after ∈ moment.table)
    (hid : after.id = before.id) (hpending : before.status = .pending)
    (hrunning : after.status = .inProgress) (hother : other ∈ tableAfter earlier)
    (hrival : other.status = .pending) : other.precedes before = false := by
  obtain ⟨hmove, hsound⟩ := h.move Ledger.sound_empty
  have hne : after.status ≠ before.status := by
    rw [hpending, hrunning]
    decide
  obtain ⟨hturn, hadmits⟩ := hmove.turn_of_ne hsound hbefore hafter hid hne
  generalize moment.cause = cause at hturn hadmits
  cases hturn with
  | cancel | cancelAll | retry | wake => cases hrunning
  | launch => exact hadmits other hother hrival
  | finish _ hs =>
      rw [hpending] at hs
      cases hs

namespace Scheduler

variable {s : Scheduler ω}

-- In what order a run serves its tasks, and when.
structure Served (settings : Settings) (journal : List Moment) (s : Scheduler ω) : Prop where
  -- No other pending task has a higher priority than the one that is launched, nor the same
  -- priority and an earlier number, whether the task is new, was woken, or was put back into the
  -- queue.
  inOrder : ∀ earlier moment later, journal = earlier ++ moment :: later →
    ∀ before ∈ tableAfter earlier, ∀ after ∈ moment.table, after.id = before.id →
      before.status = .pending → after.status = .inProgress →
        ∀ other ∈ tableAfter earlier, other.status = .pending →
          ¬before.priority < other.priority ∧
            ¬(other.priority = before.priority ∧ other.created < before.created)
  -- The order in which a table is gone through does not matter for the choice.
  anyOrder : ∀ earlier later, journal = earlier ++ later → ∀ queue other : Queue,
    queue.tasks = tableAfter earlier → other.tasks.Perm queue.tasks →
      other.foremost? = queue.foremost?
  -- No task waits for its turn while another attempt may run.
  conserving : s.queue.stats.inProgress < settings.concurrency →
    ∀ task ∈ s.queue.tasks, task.status ≠ .pending

theorem Run.served {settings : Settings} {world : ω} {reactions : List Reaction}
    {past : List (Scheduler ω)} {journal : List Moment}
    (hrun : Run settings world reactions past journal s) : s.Served settings journal := by
  have hleads := hrun.leads
  have hlawful : Ledger.empty.Lawful settings journal := hleads.lawful
  constructor
  · rintro earlier moment later rfl before hbefore after hafter hid hpending hrunning other hother
      hrival
    exact Task.precedes_eq_false_iff.mp
      (not_precedes_launched hlawful hbefore hafter hid hpending hrunning hother hrival)
  · rintro earlier later rfl queue other htasks hperm
    have hsound := (Ledger.lawful_append.mp hlawful).1.sound Ledger.sound_empty
    exact Queue.foremost?_perm (htasks ▸ hsound.created) hperm
  · intro hroom
    have hactive : s.queue.active = (runningIds s.queue.tasks).length := hleads.coherent.fits.active
    rw [Queue.stats_inProgress, ← hactive] at hroom
    exact hrun.settled.queue.filled hroom

-- Of two tasks the second has to wait for its turn.
theorem served_enqueue_second :
    let first : TaskRequest := ⟨"a", .unknown, none, none, none⟩
    let second : TaskRequest := ⟨"b", .typeError, none, none, none⟩
    let work : Nat → Work Unit := fun _ => .finish .succeeded
    let s := enqueueFirst {} () first work
    (s.enqueue second work).1.Served {}
      ((Scheduler.start {} () []).enqueueMoments first work ++ s.enqueueMoments second work) := by
  intro first second work s
  have hfresh : second.id ∉ s.works.map Prod.fst := by
    rw [(enqueueFirst_launched {} () first work (by decide)).2]
    decide
  exact ((Run.enqueueFirst {} () first work).step (.enqueue s second work hfresh)).served

end Scheduler

end LivePreview.Retry
