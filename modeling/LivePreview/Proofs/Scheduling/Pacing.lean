import LivePreview.Proofs.Binary64.Rounding
import LivePreview.Proofs.Scheduling.Invocations
import LivePreview.Proofs.Scheduling.Settled

namespace LivePreview.Retry

variable {ω : Type} {settings : Settings}

-- A delay does not shrink, whatever the multiplier is and however it is rounded, and does not pass
-- the longest one.
theorem grownDelay_bounds {current most : Span} (multiplier : Binary64) (h : current ≤ most) :
    current ≤ grownDelay current multiplier most ∧ grownDelay current multiplier most ≤ most := by
  unfold grownDelay
  dsimp only
  split
  · exact ⟨h, le_refl most⟩
  · rename_i hgrown
    simp only [Bool.or_eq_true, Bool.not_eq_true', not_or, Bool.not_eq_false,
      Bool.not_eq_true] at hgrown
    obtain ⟨hfinite, hless⟩ := hgrown
    exact ⟨le_max_right _ _, max_le (Binary64.roundToNat_le hfinite hless _) h⟩

-- The longest delay stays.
theorem grownDelay_most (multiplier : Binary64) (most : Span) :
    grownDelay most multiplier most = most := by
  obtain ⟨hleast, hmost⟩ := grownDelay_bounds multiplier (Nat.le_refl most)
  exact Nat.le_antisymm hmost hleast

-- The delay of a task lies between its base delay and the longest one.
structure Task.Paced (settings : Settings) (task : Task) : Prop where
  least : task.baseDelay ≤ task.delay
  most : task.delay ≤ settings.maxDelay

theorem Queue.paced_newTask (settings : Settings) (queue : Queue) (request : TaskRequest) :
    (queue.newTask settings request).Paced settings :=
  ⟨le_refl _, Nat.min_le_right _ _⟩

theorem Queue.eq_newTask_of_mem_add {queue : Queue} {task added : Task}
    (hmem : task ∈ (queue.add added).tasks) (hid : task.id = added.id) : task = added := by
  rcases List.mem_append.mp hmem with hm | hm
  · have hne := (List.mem_filter.mp hm).2
    simp [hid] at hne
  · exact List.mem_singleton.mp hm

namespace Turn

variable {cause : Cause} {before after : Task}

theorem baseDelay_eq (h : Turn settings cause before after) :
    after.baseDelay = before.baseDelay := by
  cases h with
  | finish _ _ number outcome =>
      rcases attempted_cases settings number before outcome with
        ⟨_, he⟩ | ⟨_, _, he⟩ | ⟨_, _, he⟩ <;> rw [he]
  | _ => rfl

-- What becomes of the delay: only a retry takes it back, and only a failure lets it grow.
theorem delay_cases (h : Turn settings cause before after) :
    (cause = .retry before.id ∧ after.delay = before.baseDelay) ∨ after.delay = before.delay ∨
      after.delay = grownDelay before.delay settings.multiplier settings.maxDelay := by
  cases h with
  | retry => exact .inl ⟨rfl, rfl⟩
  | finish _ _ number outcome =>
      rcases attempted_cases settings number before outcome with
        ⟨_, he⟩ | ⟨_, _, he⟩ | ⟨_, _, he⟩
      · exact .inr (.inl (by rw [he]))
      · exact .inr (.inl (by rw [he]))
      · exact .inr (.inr (by rw [he]))
  | _ => exact .inr (.inl rfl)

theorem keeps_pace (h : Turn settings cause before after) (hpaced : before.Paced settings) :
    after.Paced settings := by
  obtain ⟨hgrows, hlimit⟩ := grownDelay_bounds settings.multiplier hpaced.most
  have hbounds : before.baseDelay ≤ after.delay ∧ after.delay ≤ settings.maxDelay := by
    rcases h.delay_cases with ⟨_, hdelay⟩ | hdelay | hdelay <;> rw [hdelay]
    · exact ⟨le_refl _, hpaced.least.trans hpaced.most⟩
    · exact ⟨hpaced.least, hpaced.most⟩
    · exact ⟨hpaced.least.trans hgrows, hlimit⟩
  exact ⟨h.baseDelay_eq ▸ hbounds.1, hbounds.2⟩

theorem delay_le (h : Turn settings cause before after) (hpaced : before.Paced settings)
    (hcause : cause ≠ .retry before.id) : before.delay ≤ after.delay := by
  rcases h.delay_cases with ⟨hretry, _⟩ | hdelay | hdelay
  · exact absurd hretry hcause
  · exact hdelay.ge
  · rw [hdelay]
    exact (grownDelay_bounds settings.multiplier hpaced.most).1

end Turn

namespace Ledger

variable {ledger : Ledger} {moment : Moment} {moments : List Moment}

-- A task of the table after a write is new, was there, or is one that took a turn.
theorem Move.mem_cases (h : ledger.Move settings moment) (hs : ledger.Sound) {task : Task}
    (hmem : task ∈ moment.table) :
    moment.cause = .enqueue task.id ∨ task ∈ ledger.table ∨
      ∃ before ∈ ledger.table, Turn settings moment.cause before task := by
  cases h with
  | enqueue added =>
      rcases List.mem_append.mp hmem with hm | hm
      · exact .inr (.inl hm)
      · exact .inl (by rw [List.mem_singleton.mp hm])
  | turn cause before after hbefore hturn =>
      rcases (mem_replaceTask hs.ids hbefore hturn.id_eq task).mp hmem with rfl | ⟨hm, _⟩
      · exact .inr (.inr ⟨before, hbefore, hturn⟩)
      · exact .inr (.inl hm)
  | prune => exact .inr (.inl (List.mem_filter.mp hmem).1)
  | invoke => exact .inr (.inl hmem)
  | reorder table hperm => exact .inr (.inl (hperm.mem_iff.mp hmem))

-- What holds of the tasks of a table and of new tasks, and is kept by every turn, goes on to hold.
theorem Lawful.forall_mem {P : Task → Prop} (h : ledger.Lawful settings moments) (hs : ledger.Sound)
    (hold : ∀ task ∈ ledger.table, P task)
    (hnew : ∀ moment ∈ moments, ∀ task ∈ moment.table, moment.cause = .enqueue task.id → P task)
    (hturn : ∀ moment ∈ moments, ∀ before after, Turn settings moment.cause before after →
      P before → P after) :
    ∀ task ∈ (ledger.play moments).table, P task := by
  induction moments generalizing ledger with
  | nil => exact hold
  | cons moment moments ih =>
      apply ih h.2 (h.1.sound hs)
      · intro task hm
        rcases h.1.mem_cases hs hm with hcause | hm | ⟨before, hm, ht⟩
        · exact hnew moment List.mem_cons_self task hm hcause
        · exact hold task hm
        · exact hturn moment List.mem_cons_self before task ht (hold before hm)
      · exact fun later hl => hnew later (List.mem_cons_of_mem _ hl)
      · exact fun later hl => hturn later (List.mem_cons_of_mem _ hl)

-- No identifier is given twice.
theorem Lawful.cause_ne_enqueue {id : String} (h : ledger.Lawful settings moments)
    (hknown : id ∈ ledger.known) : ∀ moment ∈ moments, moment.cause ≠ .enqueue id := by
  induction moments generalizing ledger with
  | nil => simp
  | cons moment moments ih =>
      have hlater := ih h.2 (known_subset ledger moment hknown)
      rintro other hmem hcause
      rcases List.mem_cons.mp hmem with rfl | hm
      · cases h.1 with
        | enqueue task _ _ hfresh =>
            cases hcause
            exact hfresh hknown
        | turn cause before after _ hturn => cases hturn <;> cases hcause
        | prune | invoke | reorder => cases hcause
      · exact hlater other hm hcause

-- As long as a task is not put back into the queue, its delay does not shrink.
theorem Lawful.delay_le (h : ledger.Lawful settings moments) (hs : ledger.Sound)
    (hpaced : ∀ task ∈ ledger.table, task.Paced settings)
    (hnew : ∀ moment ∈ moments, ∀ task ∈ moment.table, moment.cause = .enqueue task.id →
      task.Paced settings)
    {before after : Task} (hbefore : before ∈ ledger.table)
    (hafter : after ∈ (ledger.play moments).table) (hid : after.id = before.id)
    (hcause : ∀ moment ∈ moments, moment.cause ≠ .retry before.id) :
    before.delay ≤ after.delay := by
  have hfresh := h.cause_ne_enqueue (hs.known before hbefore)
  have hall := h.forall_mem (P := fun task =>
    task.Paced settings ∧ (task.id = before.id → before.delay ≤ task.delay)) hs ?_ ?_ ?_
  · exact (hall after hafter).2 hid
  · intro task hm
    refine ⟨hpaced task hm, fun he => ?_⟩
    rw [task_eq_of_id_eq hs.ids hm hbefore he]
  · intro moment hm task htask hc
    refine ⟨hnew moment hm task htask hc, fun he => ?_⟩
    exact absurd (he ▸ hc) (hfresh moment hm)
  · rintro moment hm old new hturn ⟨hold, hdelay⟩
    refine ⟨hturn.keeps_pace hold, fun he => ?_⟩
    have hsame : old.id = before.id := hturn.id_eq.symm.trans he
    exact (hdelay hsame).trans (hturn.delay_le hold (hsame ▸ hcause moment hm))

end Ledger

section Origin

-- The write is that of a new task.
def Moment.isEnqueue (moment : Moment) : Bool :=
  match moment.cause with
  | .enqueue _ => true
  | _ => false

theorem length_known_play (ledger : Ledger) (moments : List Moment) :
    (ledger.play moments).known.length =
      ledger.known.length + moments.countP Moment.isEnqueue := by
  induction moments generalizing ledger with
  | nil => rfl
  | cons moment moments ih =>
      obtain ⟨cause, table⟩ := moment
      rw [Ledger.play_cons, ih, List.countP_cons]
      cases cause <;> simp [Ledger.after, Cause.knownAfter, Moment.isEnqueue]
      omega

end Origin

namespace Scheduler

variable {s s' : Scheduler ω} {moments : List Moment}

theorem Step.works_cases (hstep : Step s moments s') :
    (∃ request work, moments = s.enqueueMoments request work ∧
      s'.works = (request.id, work) :: s.works) ∨ s'.works = s.works := by
  cases hstep with
  | enqueue request work => exact .inl ⟨request, work, rfl, works_launchAfter _⟩
  | cancel id =>
      right
      unfold Scheduler.cancel
      split
      · exact works_notifyAll _
      · rfl
  | cancelAll => exact .inr (works_notifyAll _)
  | retry id =>
      right
      unfold Scheduler.retry
      split
      · exact works_launchAfter _
      · rfl
  | job job => exact .inr (works_runJob _ job)
  | _ => exact .inr rfl

-- A new task is written first by the request that asks for it, and by nothing else: the other
-- writes leave the identifiers that are known as they are.
theorem Step.of_enqueue (hstep : Step s moments s') (h : s.Coherent 0) {moment : Moment}
    (hmem : moment ∈ moments) (hnew : moment.isEnqueue = true) :
    ∃ request work, moments = s.enqueueMoments request work ∧
      moment = ⟨.enqueue request.id, (s.queue.add (s.queue.newTask s.settings request)).tasks⟩ := by
  have hcount := length_known_play (s.situation 0).ledger moments
  rw [(hstep.leads h).played] at hcount
  simp only [situation, Situation.ledger, List.length_map] at hcount
  rcases hstep.works_cases with ⟨request, work, rfl, hworks⟩ | hworks
  · refine ⟨request, work, rfl, ?_⟩
    rw [hworks, List.length_cons, enqueueMoments, List.countP_cons_of_pos rfl] at hcount
    rcases List.mem_cons.mp hmem with he | hm
    · exact he
    · have hpos := List.countP_pos_iff.mpr ⟨moment, hm, hnew⟩
      omega
  · have hpos := List.countP_pos_iff.mpr ⟨moment, hmem, hnew⟩
    rw [hworks] at hcount
    omega

-- Somewhere on its way the run met the request for the task. The base delay of the task is the one
-- asked for, or else that of the settings, but not more than the longest delay.
def Asked (settings : Settings) (past : List (Scheduler ω)) (journal : List Moment) (task : Task) :
    Prop :=
  ∃ s ∈ past, ∃ (request : TaskRequest) (work : Nat → Work ω) (earlier later : List Moment),
    journal = earlier ++ s.enqueueMoments request work ++ later ∧ request.id = task.id ∧
      task.baseDelay = min (request.baseDelay?.getD settings.baseDelay) settings.maxDelay

section Run

variable {world : ω} {reactions : List Reaction} {past : List (Scheduler ω)}
  {journal : List Moment}

theorem Asked.step {task : Task} (h : Asked settings past journal task) (s : Scheduler ω)
    (moments : List Moment) : Asked settings (past ++ [s]) (journal ++ moments) task := by
  obtain ⟨t, hmem, request, work, earlier, later, rfl, hrest⟩ := h
  refine ⟨t, List.mem_append_left _ hmem, request, work, earlier, later ++ moments, ?_, hrest⟩
  rw [← List.append_assoc]

theorem Run.asked (hrun : Run settings world reactions past journal s) :
    ∀ moment ∈ journal, ∀ task ∈ moment.table, moment.cause = .enqueue task.id →
      task.Paced settings ∧ Asked settings past journal task := by
  induction hrun with
  | start => simp
  | @step past journal moments s s' hrun hstep ih =>
      intro moment hm task htask hcause
      rcases List.mem_append.mp hm with hm | hm
      · obtain ⟨hpaced, hasked⟩ := ih moment hm task htask hcause
        exact ⟨hpaced, hasked.step s moments⟩
      · have hsettings : s.settings = settings := hrun.leads.settings
        have hnew : moment.isEnqueue = true := by rw [Moment.isEnqueue, hcause]
        obtain ⟨request, work, rfl, rfl⟩ := hstep.of_enqueue hrun.leads.coherent hm hnew
        have hid : request.id = task.id := Cause.enqueue.inj hcause
        have htask' := Queue.eq_newTask_of_mem_add htask hid.symm
        refine ⟨?_, s, by simp, request, work, journal, [], by simp, hid, ?_⟩
        · rw [htask', hsettings]
          exact Queue.paced_newTask settings s.queue request
        · rw [htask', hsettings]
          rfl

-- The delays of a run.
structure Paced (settings : Settings) (past : List (Scheduler ω)) (journal : List Moment)
    (s : Scheduler ω) : Prop where
  table : tableAfter journal = s.queue.tasks
  asked : ∀ earlier later, journal = earlier ++ later → ∀ task ∈ tableAfter earlier,
    Asked settings past journal task
  within : ∀ earlier later, journal = earlier ++ later → ∀ task ∈ tableAfter earlier,
    task.baseDelay ≤ task.delay ∧ task.delay ≤ settings.maxDelay
  -- Between two retries of a task its delay does not shrink.
  growing : ∀ earlier segment later, journal = earlier ++ segment ++ later →
    ∀ before ∈ tableAfter earlier, ∀ after ∈ tableAfter (earlier ++ segment), after.id = before.id →
      (∀ moment ∈ segment, moment.cause ≠ .retry before.id) → before.delay ≤ after.delay
  reset : ∀ earlier id table later, journal = earlier ++ ⟨.retry id, table⟩ :: later →
    ∀ task ∈ table, task.id = id → task.delay = task.baseDelay
  -- So it is with the timers of tasks that were cancelled meanwhile.
  timers : ∀ timer ∈ timersOf s.jobs, timer.delay ≤ settings.maxDelay

-- Whatever the samples are and whatever happens in whatever order, delays keep their bounds.
theorem Run.paced (hrun : Run settings world reactions past journal s) :
    s.Paced settings past journal := by
  have hleads := hrun.leads
  have hlawful : Ledger.empty.Lawful settings journal := hleads.lawful
  have hnew := hrun.asked
  have hall : ∀ earlier later, journal = earlier ++ later → ∀ task ∈ tableAfter earlier,
      task.Paced settings ∧ Asked settings past journal task := by
    intro earlier later hsplit
    have hearlier := (Ledger.lawful_append.mp (hsplit ▸ hlawful)).1
    apply hearlier.forall_mem
      (P := fun task => task.Paced settings ∧ Asked settings past journal task) Ledger.sound_empty
    · simp [Ledger.empty]
    · exact fun moment hm => hnew moment (hsplit ▸ List.mem_append_left later hm)
    · rintro moment _ before after hturn ⟨hpaced, t, ht, request, work, front, back, he, hid, hbase⟩
      refine ⟨hturn.keeps_pace hpaced, t, ht, request, work, front, back, he, ?_, ?_⟩
      · rw [hturn.id_eq, hid]
      · rw [hturn.baseDelay_eq, hbase]
  constructor
  · exact congrArg Ledger.table hleads.played
  · exact fun earlier later hsplit task hm => (hall earlier later hsplit task hm).2
  · intro earlier later hsplit task hm
    have hpaced := (hall earlier later hsplit task hm).1
    exact ⟨hpaced.least, hpaced.most⟩
  · intro earlier segment later hsplit before hbefore after hafter hid hcause
    obtain ⟨hearlier, hsegment⟩ := Ledger.lawful_append.mp
      (Ledger.lawful_append.mp (hsplit ▸ hlawful)).1
    have hfront : journal = earlier ++ (segment ++ later) := by rw [hsplit, List.append_assoc]
    rw [tableAfter, Ledger.play_append] at hafter
    refine hsegment.delay_le (hearlier.sound Ledger.sound_empty) ?_ ?_ hbefore hafter hid hcause
    · exact fun task hm => (hall earlier _ hfront task hm).1
    · intro moment hm task htask hc
      refine (hnew moment ?_ task htask hc).1
      rw [hsplit]
      exact List.mem_append_left _ (List.mem_append_right _ hm)
  · rintro earlier id table later rfl task hmem rfl
    obtain ⟨hmove, hsound⟩ := hlawful.move Ledger.sound_empty
    generalize hcause : Cause.retry task.id = cause at hmove
    cases hmove with
    | turn _ before after hbefore hturn =>
        cases hturn with
        | retry =>
            have hsame : task.id = before.id := Cause.retry.inj hcause
            have hid : (Queue.renewed before).id = before.id := rfl
            rcases (mem_replaceTask hsound.ids hbefore hid task).mp hmem with rfl | ⟨_, hne⟩
            · rfl
            · exact absurd hsame hne
        | _ => cases hcause
    | _ => cases hcause
  · have hdelays := hleads.coherent.fits.delays
    rwa [situation, zero_add, hleads.settings] at hdelays

end Run

-- A request for a longer delay than is allowed.
def patientRequest : TaskRequest := ⟨"a", .unknown, none, none, some (Span.ofMillis 60000)⟩

-- A task that fails after such a request waits for the longest delay.
theorem paced_attemptFirst :
    let s := attemptFirst {} () patientRequest fun _ => .finish .returnedFalse
    s.queue.tasks.map (·.delay) = [Span.ofMillis 30000] ∧
      Paced {} [.start {} () [], enqueueFirst {} () patientRequest fun _ => .finish .returnedFalse]
        ((Scheduler.start {} () []).enqueueMoments patientRequest (fun _ => .finish .returnedFalse) ++
          { enqueueFirst {} () patientRequest (fun _ => .finish .returnedFalse) with
            ready := [] }.attemptMoments "a") s := by
  intro s
  refine ⟨?_, (Run.attemptFirst {} () patientRequest _ (by decide)).paced⟩
  have hcut : min (Span.ofMillis 60000) (Span.ofMillis 30000) = Span.ofMillis 30000 := by decide
  simp [s, patientRequest, attemptFirst, enqueueFirst, start, enqueue, launch, notifyAll, notify,
    withNotes, announce, react, releaseCaller, log, runJob, attempt, perform, settle, Queue.launch,
    Queue.foremost?, Queue.tasksIn, Queue.add, Queue.empty, Queue.newTask, Queue.start,
    Queue.started, Queue.update, Queue.noteDrained, Queue.isIdle, Queue.finish, Queue.find?,
    Queue.attempted, Outcome.isSuccess, Status.isLive, hcut, grownDelay_most]

end Scheduler

end LivePreview.Retry
