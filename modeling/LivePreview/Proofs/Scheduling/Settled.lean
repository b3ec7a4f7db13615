import LivePreview.Proofs.Scheduling.Steps

namespace LivePreview.Retry

variable {ω : Type} {settings : Settings}

namespace Queue

variable {queue after : Queue} {task : Task}

-- As long as another attempt may be launched, no task is left pending.
def Filled (settings : Settings) (queue : Queue) : Prop :=
  queue.active < settings.concurrency → ∀ task ∈ queue.tasks, task.status ≠ .pending

-- While anything is going on, the note that the queue has drained is still to come.
def Due (queue : Queue) : Prop := queue.isIdle = false → queue.drainDue = true

structure Settled (settings : Settings) (queue : Queue) : Prop where
  filled : queue.Filled settings
  due : queue.drainDue = true ↔ queue.isIdle = false

-- Nothing but the tasks is changed, and each task that will still run was there before.
structure Lessened (queue after : Queue) : Prop where
  active : after.active = queue.active
  drainDue : after.drainDue = queue.drainDue
  live : ∀ task ∈ after.tasks, task.status.isLive = true → task ∈ queue.tasks

theorem isIdle_eq_false_iff : queue.isIdle = false ↔
    queue.active ≠ 0 ∨ ∃ task ∈ queue.tasks, task.status.isLive = true := by
  simp [isIdle, imp_iff_or_not, or_comm]

theorem busy_of_mem (hmem : task ∈ queue.tasks) (hlive : task.status.isLive = true) :
    queue.isIdle = false :=
  isIdle_eq_false_iff.mpr (.inr ⟨task, hmem, hlive⟩)

theorem mem_update {next : Task} (h : task ∈ (queue.update next).tasks) :
    task = next ∨ task ∈ queue.tasks := by
  obtain ⟨other, hm, rfl⟩ := List.mem_map.mp h
  split
  · exact .inl rfl
  · exact .inr hm

namespace Lessened

theorem refl (queue : Queue) : Lessened queue queue := ⟨rfl, rfl, fun _ h _ => h⟩

theorem trans {last : Queue} (first : Lessened queue after) (second : Lessened after last) :
    Lessened queue last :=
  ⟨second.active.trans first.active, second.drainDue.trans first.drainDue,
    fun task hm hl => first.live task (second.live task hm hl) hl⟩

theorem filled (h : Lessened queue after) (hf : queue.Filled settings) : after.Filled settings := by
  intro hroom task hm hstatus
  exact hf (h.active ▸ hroom) task (h.live task hm (by rw [hstatus]; rfl)) hstatus

theorem busy (h : Lessened queue after) (hbusy : after.isIdle = false) : queue.isIdle = false := by
  rcases isIdle_eq_false_iff.mp hbusy with ha | ⟨task, hm, hl⟩
  · exact isIdle_eq_false_iff.mpr (.inl (h.active ▸ ha))
  · exact busy_of_mem (h.live task hm hl) hl

theorem due (h : Lessened queue after) (hd : queue.Due) : after.Due := by
  intro hbusy
  rw [h.drainDue]
  exact hd (h.busy hbusy)

theorem cancelled (queue : Queue) (task : Task) :
    Lessened queue (queue.update (Queue.cancelled task)) := by
  refine ⟨rfl, rfl, ?_⟩
  intro other hm hlive
  rcases mem_update hm with rfl | hm
  · cases hlive
  · exact hm

theorem cancelEach (queue : Queue) (tasks : List Task) :
    Lessened queue
      (tasks.foldl (fun queue task => queue.update (Queue.cancelled task)) queue) := by
  induction tasks generalizing queue with
  | nil => exact .refl queue
  | cons task tasks ih => exact (cancelled queue task).trans (ih _)

theorem pruned (queue : Queue) : Lessened queue queue.prune.1 :=
  ⟨rfl, rfl, fun _ hm _ => (List.mem_filter.mp hm).1⟩

end Lessened

-- What is pruned had come to its end.
theorem isIdle_prune (queue : Queue) : queue.prune.1.isIdle = queue.isIdle := by
  cases hidle : queue.isIdle with
  | true =>
      rw [← Bool.not_eq_false]
      intro hbusy
      rw [(Lessened.pruned queue).busy hbusy] at hidle
      cases hidle
  | false =>
      rcases isIdle_eq_false_iff.mp hidle with ha | ⟨task, hm, hl⟩
      · exact isIdle_eq_false_iff.mpr (.inl ha)
      · refine busy_of_mem (List.mem_filter.mpr ⟨hm, ?_⟩) hl
        cases hs : task.status <;> simp [hs, Status.isLive, Status.isTerminal] at hl ⊢

theorem isIdle_noteDrained (queue : Queue) : queue.noteDrained.isIdle = queue.isIdle := by
  obtain ⟨htasks, hactive, _⟩ := noteDrained_frame queue
  rw [isIdle, isIdle, htasks, hactive]

-- A due note is given as soon as the queue is idle.
theorem Due.noteDrained (h : queue.Due) :
    queue.noteDrained.drainDue = true ↔ queue.noteDrained.isIdle = false := by
  rw [isIdle_noteDrained]
  unfold Queue.noteDrained
  cases hidle : queue.isIdle with
  | true => cases hdue : queue.drainDue <;> simp [hdue]
  | false => simp [h hidle]

theorem Filled.noteDrained (h : queue.Filled settings) : queue.noteDrained.Filled settings := by
  obtain ⟨htasks, hactive, _⟩ := noteDrained_frame queue
  rwa [Filled, htasks, hactive]

theorem Due.settled (hd : queue.Due) (hf : queue.Filled settings) :
    queue.noteDrained.Settled settings :=
  ⟨hf.noteDrained, hd.noteDrained⟩

theorem Settled.to_due (h : queue.Settled settings) : queue.Due := h.due.mpr

-- Launching ends when nothing more may run, or when nothing more is pending.
theorem Due.settled_launch (h : queue.Due) : (queue.launch settings).1.Settled settings := by
  induction queue using Queue.launch.induct settings with
  | case1 queue hroom hnone =>
      rw [launch, if_pos hroom, hnone]
      exact h.settled fun _ => foremost?_eq_none hnone
  | case2 queue hroom task hsome _ _ _ ih =>
      rw [launch, if_pos hroom, hsome]
      obtain ⟨hmem, hstatus, _⟩ := foremost?_eq_some hsome
      exact ih fun _ => h (busy_of_mem hmem (by rw [hstatus]; rfl))
  | case3 queue hfull =>
      rw [launch, if_neg hfull]
      exact h.settled fun hroom => absurd hroom hfull

-- What launching begins is going on.
theorem isIdle_launch (h : queue.isIdle = false) : (queue.launch settings).1.isIdle = false := by
  induction queue using Queue.launch.induct settings with
  | case1 queue hroom hnone =>
      rw [launch, if_pos hroom, hnone]
      exact (isIdle_noteDrained queue).trans h
  | case2 queue hroom task hsome _ _ _ ih =>
      rw [launch, if_pos hroom, hsome]
      exact ih (isIdle_eq_false_iff.mpr (.inl (Nat.succ_ne_zero _)))
  | case3 queue hfull =>
      rw [launch, if_neg hfull]
      exact (isIdle_noteDrained queue).trans h

-- What stays true whatever observers ask of the queue.
structure Kept (settings : Settings) (P : Queue → Prop) : Prop where
  notes : ∀ queue notes, P queue → P { queue with notes := notes }
  cancel : ∀ queue task, P queue → P (queue.update (cancelled task)).noteDrained
  cancelAll : ∀ queue, P queue → P queue.cancelAll.1
  prune : ∀ queue, P queue → P queue.prune.1
  retry : ∀ queue task, P queue →
    P (launch settings { queue.update (renewed task) with drainDue := true }).1

theorem kept_settled : Kept settings (Settled settings) where
  notes _ _ h := ⟨h.filled, h.due⟩
  cancel queue task h :=
    ((Lessened.cancelled queue task).due h.to_due).settled
      ((Lessened.cancelled queue task).filled h.filled)
  cancelAll queue h :=
    ((Lessened.cancelEach queue _).due h.to_due).settled
      ((Lessened.cancelEach queue _).filled h.filled)
  prune queue h := by
    refine ⟨(Lessened.pruned queue).filled h.filled, ?_⟩
    rw [isIdle_prune]
    exact h.due
  retry _ _ _ := Due.settled_launch fun _ => rfl

theorem kept_due : Kept settings Due where
  notes _ _ h := h
  cancel queue task h := ((Lessened.cancelled queue task).due h).noteDrained.mpr
  cancelAll queue h := ((Lessened.cancelEach queue _).due h).noteDrained.mpr
  prune queue h := (Lessened.pruned queue).due h
  retry queue task _ := by
    have hsettled : (launch settings
        { queue.update (renewed task) with drainDue := true }).1.Settled settings :=
      Due.settled_launch fun _ => rfl
    exact hsettled.to_due

end Queue

namespace Scheduler

variable {s : Scheduler ω} {P : Queue → Prop}

-- What holds of a scheduler between two operations or events.
structure Settled (settings : Settings) (s : Scheduler ω) : Prop where
  same : s.settings = settings
  told : s.queue.notes = []
  queue : s.queue.Settled settings

theorem kept_carryOut (hkept : Queue.Kept settings P) (call : Call) (target : String)
    (h : s.settings = settings ∧ P s.queue) :
    (s.carryOut call target).settings = settings ∧ P (s.carryOut call target).queue := by
  obtain ⟨rfl, hp⟩ := h
  cases call with
  | cancel =>
      simp only [carryOut]
      cases hcancel : s.queue.cancel? target with
      | none => exact ⟨rfl, hp⟩
      | some queue =>
          obtain ⟨task, _, _, _, rfl⟩ := Queue.cancel?_eq_some hcancel
          exact ⟨rfl, hkept.cancel s.queue task hp⟩
  | cancelAll => exact ⟨rfl, hkept.cancelAll s.queue hp⟩
  | prune => exact ⟨rfl, hkept.prune s.queue hp⟩
  | stats | isIdle | get => exact ⟨rfl, hp⟩
  | retry =>
      simp only [carryOut]
      cases hretry : s.queue.retry target with
      | error e => exact ⟨rfl, hp⟩
      | ok result =>
          obtain ⟨queue, renewal⟩ := result
          obtain ⟨task, _, _, _, _, rfl⟩ := Queue.retry_eq_ok hretry
          exact ⟨rfl, hkept.retry s.queue task hp⟩

theorem kept_notify (hkept : Queue.Kept settings P) (note : Note)
    (h : s.settings = settings ∧ P s.queue) :
    (s.notify note).settings = settings ∧ P (s.notify note).queue := by
  have hreact : ∀ (due : List Reaction) (s : Scheduler ω), s.settings = settings ∧ P s.queue →
      (s.react note due).settings = settings ∧ P (s.react note due).queue := by
    intro due
    induction due with
    | nil => exact fun s h => h
    | cons reaction due ih => exact fun s h => ih _ (kept_carryOut hkept _ _ h)
  have hannounced : ({ s with reactions := s.reactions.map (Reaction.use note) }.announce
      note).settings = settings ∧
      P ({ s with reactions := s.reactions.map (Reaction.use note) }.announce note).queue := by
    cases note <;> exact h
  have hreacted := hreact (s.reactions.filter (Reaction.isDue note)) _ hannounced
  cases note with
  | status task => exact hreacted
  | drained =>
      unfold notify releaseCaller
      dsimp only
      split <;> exact hreacted

theorem kept_notifyAll (hkept : Queue.Kept settings P) (h : s.settings = settings ∧ P s.queue) :
    s.notifyAll.settings = settings ∧ P s.notifyAll.queue := by
  induction s using notifyAll.induct with
  | case1 s hnotes => rwa [notifyAll_of_nil hnotes]
  | case2 s note rest hnotes ih =>
      rw [notifyAll_of_cons hnotes]
      exact ih (kept_notify hkept note ⟨h.1, hkept.notes _ rest h.2⟩)

theorem notes_notifyAll (s : Scheduler ω) : s.notifyAll.queue.notes = [] := by
  induction s using notifyAll.induct with
  | case1 s hnotes => rwa [notifyAll_of_nil hnotes]
  | case2 s note rest hnotes ih => rwa [notifyAll_of_cons hnotes]

theorem settled_notifyAll (hsame : s.settings = settings) (h : s.queue.Settled settings) :
    s.notifyAll.Settled settings := by
  obtain ⟨hset, hqueue⟩ := kept_notifyAll Queue.kept_settled ⟨hsame, h⟩
  exact ⟨hset, notes_notifyAll s, hqueue⟩

-- An operation that launches what it can settles the scheduler, whatever went before.
theorem settled_launch (hsame : s.settings = settings) (h : s.queue.Due) :
    s.launch.Settled settings := by
  subst hsame
  obtain ⟨hset, htold, hqueue⟩ := settled_notifyAll
    (s := { s with queue := (s.queue.launch s.settings).1 }) rfl h.settled_launch
  exact ⟨hset, htold, hqueue⟩

theorem settled_launchAfter (hsame : s.settings = settings) (h : s.queue.Due) :
    s.notifyAll.launch.Settled settings := by
  obtain ⟨hset, hdue⟩ := kept_notifyAll Queue.kept_due ⟨hsame, h⟩
  exact settled_launch hset hdue

-- An attempt leaves the queue alone until it is over.
theorem perform_cases (id : String) (work : Work ω) (s : Scheduler ω) :
    ∃ s', Beside s s' ∧ (perform id work s = s' ∨
      ∃ outcome, perform id work s = s'.settle id outcome) := by
  induction work generalizing s with
  | finish outcome => exact ⟨s, ⟨rfl, rfl, rfl, rfl, rfl⟩, .inr ⟨outcome, rfl⟩⟩
  | act change next ih =>
      have hchange : Beside s { s with world := change s.world } := ⟨rfl, rfl, rfl, rfl, rfl⟩
      obtain ⟨s', hbeside, hcases⟩ := ih (change s.world) { s with world := change s.world }
      exact ⟨s', hchange.trans hbeside, hcases⟩
  | sleep span next ih =>
      unfold perform
      split
      · exact ih s
      · refine ⟨_, ?_, .inl rfl⟩
        exact ⟨rfl, rfl, rfl, rfl, rfl⟩
  | hold name next ih =>
      unfold perform
      split
      · have hheld : Beside s { s with held := (name, []) :: s.held } := ⟨rfl, rfl, rfl, rfl, rfl⟩
        obtain ⟨s', hbeside, hcases⟩ := ih { s with held := (name, []) :: s.held }
        exact ⟨s', hheld.trans hbeside, hcases⟩
      · refine ⟨_, ?_, .inl rfl⟩
        exact ⟨rfl, rfl, rfl, rfl, rfl⟩
  | release name next ih =>
      obtain ⟨s', hbeside, hcases⟩ := ih (s.release name)
      exact ⟨s', (beside_release s name).1.trans hbeside, hcases⟩

-- A job does nothing to the queue, ends an attempt that is under way, or ends a timer.
theorem runJob_cases (job : Job ω) (s : Scheduler ω) :
    ∃ s', Beside s s' ∧ (s.runJob job = s' ∨
      (∃ id outcome, job.running = {id} ∧ s.runJob job = s'.settle id outcome) ∨
      ∃ timer, s.runJob job = s'.expire timer) := by
  cases job with
  | attempt id =>
      have hlogged : Beside s ({ s with runs := id :: s.runs }.log
          (.run id (s.runs.count id + 1) s.now)) :=
        ⟨rfl, rfl, rfl, rfl, by simp [log, Event.isRun]⟩
      simp only [runJob, attempt]
      split
      · rename_i work _
        obtain ⟨s', hbeside, hcases⟩ := perform_cases id (work (s.runs.count id + 1))
          ({ s with runs := id :: s.runs }.log (.run id (s.runs.count id + 1) s.now))
        refine ⟨s', hlogged.trans hbeside, hcases.imp_right fun hsettle => .inl ?_⟩
        obtain ⟨outcome, he⟩ := hsettle
        exact ⟨id, outcome, rfl, he⟩
      · exact ⟨_, hlogged, .inr (.inl ⟨id, .returnedFalse, rfl, rfl⟩)⟩
  | resume id work =>
      obtain ⟨s', hbeside, hcases⟩ := perform_cases id work s
      refine ⟨s', hbeside, hcases.imp_right fun hsettle => .inl ?_⟩
      obtain ⟨outcome, he⟩ := hsettle
      exact ⟨id, outcome, rfl, he⟩
  | setTimer timer =>
      simp only [runJob, setTimer]
      split
      · split
        · exact ⟨s, ⟨rfl, rfl, rfl, rfl, rfl⟩, .inr (.inr ⟨timer, rfl⟩)⟩
        · refine ⟨_, ?_, .inl rfl⟩
          exact ⟨rfl, rfl, rfl, rfl, rfl⟩
      · exact ⟨s, ⟨rfl, rfl, rfl, rfl, rfl⟩, .inl rfl⟩
  | expire timer => exact ⟨s, ⟨rfl, rfl, rfl, rfl, rfl⟩, .inr (.inr ⟨timer, rfl⟩)⟩
  | caller => exact ⟨s, ⟨rfl, rfl, rfl, rfl, rfl⟩, .inl rfl⟩

-- Only a new task brings new work.
@[simp] theorem works_carryOut (s : Scheduler ω) (call : Call) (target : String) :
    (s.carryOut call target).works = s.works := by
  cases call <;> simp only [carryOut, log, launchQuietly]
  · cases s.queue.cancel? target <;> rfl
  · cases s.queue.retry target <;> rfl

theorem works_notify (s : Scheduler ω) (note : Note) : (s.notify note).works = s.works := by
  have hreact : ∀ (due : List Reaction) (s : Scheduler ω), (s.react note due).works = s.works := by
    intro due
    induction due with
    | nil => exact fun s => rfl
    | cons reaction due ih => exact fun s => (ih _).trans (works_carryOut s _ _)
  have hreacted := hreact (s.reactions.filter (Reaction.isDue note))
    ({ s with reactions := s.reactions.map (Reaction.use note) }.announce note)
  cases note with
  | status task => exact hreacted
  | drained =>
      unfold notify releaseCaller
      dsimp only
      split <;> exact hreacted

theorem works_notifyAll (s : Scheduler ω) : s.notifyAll.works = s.works := by
  induction s using notifyAll.induct with
  | case1 s hnotes => rw [notifyAll_of_nil hnotes]
  | case2 s note rest hnotes ih =>
      rw [notifyAll_of_cons hnotes]
      exact ih.trans (works_notify (s.withNotes rest) note)

theorem works_launchAfter (s : Scheduler ω) : s.notifyAll.launch.works = s.works := by
  have hlaunch := works_notifyAll
    { s.notifyAll with queue := (s.notifyAll.queue.launch s.notifyAll.settings).1 }
  exact hlaunch.trans (works_notifyAll s)

theorem works_runJob (s : Scheduler ω) (job : Job ω) : (s.runJob job).works = s.works := by
  obtain ⟨s', hbeside, he | ⟨id, outcome, _, he⟩ | ⟨timer, he⟩⟩ := runJob_cases job s <;> rw [he]
  · exact hbeside.works
  · exact (works_launchAfter { s' with
      queue := (s'.queue.finish s'.settings s'.sample id outcome).1
      ready := s'.ready ++
        (s'.queue.finish s'.settings s'.sample id outcome).2.toList.map Job.setTimer }).trans
      hbeside.works
  · unfold expire
    split
    · exact (works_launchAfter _).trans hbeside.works
    · exact hbeside.works

theorem drainDue_finish (settings : Settings) (sample : Binary64) (queue : Queue) (id : String)
    (outcome : Outcome) :
    (queue.finish settings sample id outcome).1.drainDue = queue.drainDue := by
  simp only [Queue.finish]
  split
  · rfl
  · split <;> rfl

section Jobs

variable (h : s.Settled settings)

include h

theorem Settled.beside {s' : Scheduler ω} (hbeside : Beside s s') : s'.Settled settings :=
  ⟨hbeside.settings.trans h.same, hbeside.queue ▸ h.told, hbeside.queue ▸ h.queue⟩

theorem Settled.settle (hbusy : s.queue.isIdle = false) (id : String) (outcome : Outcome) :
    (s.settle id outcome).Settled settings := by
  refine settled_launchAfter h.same fun _ => ?_
  exact (drainDue_finish s.settings s.sample s.queue id outcome).trans (h.queue.due.mpr hbusy)

theorem Settled.expire (timer : Timer) : (s.expire timer).Settled settings := by
  unfold Scheduler.expire
  cases hexpire : s.queue.expire? timer.task timer.number with
  | none => exact h
  | some queue =>
      obtain ⟨task, hmem, _, hstatus, _, rfl⟩ := Queue.expire?_eq_some hexpire
      have hdue := h.queue.due.mpr (Queue.busy_of_mem hmem (by rw [hstatus]; rfl))
      exact settled_launchAfter h.same fun _ => hdue

-- An attempt that is under way is something that is going on.
theorem Settled.job {job : Job ω} (hcoherent : s.Coherent {job}) :
    (s.runJob job).Settled settings := by
  obtain ⟨s', hbeside, he | ⟨id, outcome, hrunning, he⟩ | ⟨timer, he⟩⟩ := runJob_cases job s
  · exact he ▸ h.beside hbeside
  · have hall : runningBy ({job} + s.jobs) = (runningIds s.queue.tasks : Multiset String) :=
      hcoherent.fits.running
    rw [Multiset.singleton_add, runningBy_cons, hrunning] at hall
    have hm : id ∈ runningIds s.queue.tasks := by
      rw [← Multiset.mem_coe, ← hall]
      exact Multiset.mem_add.mpr (.inl (Multiset.mem_singleton_self id))
    obtain ⟨task, hmem, _, hstatus⟩ := mem_runningIds.mp hm
    have hbusy : s.queue.isIdle = false := Queue.busy_of_mem hmem (by rw [hstatus]; rfl)
    exact he ▸ (h.beside hbeside).settle (hbeside.queue ▸ hbusy) id outcome
  · exact he ▸ (h.beside hbeside).expire timer

end Jobs

theorem Step.settled {moments : List Moment} {s' : Scheduler ω} (hstep : Step s moments s')
    (hcoherent : s.Coherent 0) (h : s.Settled settings) : s'.Settled settings := by
  cases hstep with
  | enqueue request work hfresh => exact settled_launchAfter h.same fun _ => rfl
  | cancel id =>
      unfold Scheduler.cancel
      cases hcancel : s.queue.cancel? id with
      | none => exact h
      | some queue =>
          obtain ⟨task, _, _, _, rfl⟩ := Queue.cancel?_eq_some hcancel
          exact settled_notifyAll h.same (Queue.kept_settled.cancel s.queue task h.queue)
  | cancelAll => exact settled_notifyAll h.same (Queue.kept_settled.cancelAll s.queue h.queue)
  | retry id =>
      unfold Scheduler.retry
      cases hretry : s.queue.retry id with
      | error e => exact h
      | ok result =>
          obtain ⟨queue, renewal⟩ := result
          obtain ⟨task, _, _, _, _, rfl⟩ := Queue.retry_eq_ok hretry
          exact settled_launchAfter h.same fun _ => rfl
  | prune => exact ⟨h.same, h.told, Queue.kept_settled.prune s.queue h.queue⟩
  | job job earlier later hready =>
      have htaken := hcoherent.leads_take hready
      exact Settled.job (s := { s with ready := earlier ++ later }) ⟨h.same, h.told, h.queue⟩
        htaken.coherent
  | reorder tasks hperm =>
      refine ⟨h.same, h.told, ?_, ?_⟩
      · exact fun hroom task hm => h.queue.filled hroom task (hperm.mem_iff.mp hm)
      · have hidle : Queue.isIdle { s.queue with tasks := tasks } = s.queue.isIdle := by
          simp only [Queue.isIdle, hperm.any_eq]
        rw [hidle]
        exact h.queue.due
  | _ => exact ⟨h.same, h.told, h.queue⟩

theorem Run.settled {world : ω} {reactions : List Reaction} {past : List (Scheduler ω)}
    {journal : List Moment} (hrun : Run settings world reactions past journal s) :
    s.Settled settings := by
  induction hrun with
  | start =>
      refine ⟨rfl, rfl, ?_, ?_⟩
      · simp [Queue.Filled, Scheduler.start, Queue.empty]
      · simp [Scheduler.start, Queue.empty, Queue.isIdle]
  | step hrun hstep ih => exact hstep.settled hrun.leads.coherent ih

end Scheduler

end LivePreview.Retry
