import LivePreview.Proofs.Scheduling.Settled

namespace LivePreview.Retry

variable {ω : Type} {settings : Settings}

def Event.isDrained : Event → Bool
  | .drained _ => true
  | _ => false

namespace Queue

variable {queue after last : Queue}

-- The notes that the queue has drained which are still to be told or still to come.
def dues (queue : Queue) : Nat := queue.notes.count .drained + queue.drainDue.toNat

-- No such note becomes due, and none is lost.
structure Spent (queue after : Queue) : Prop where
  dues : after.dues = queue.dues
  only : after.drainDue = true → queue.drainDue = true

theorem Spent.refl (queue : Queue) : Spent queue queue := ⟨rfl, id⟩

theorem Spent.trans (first : Spent queue after) (second : Spent after last) : Spent queue last :=
  ⟨second.dues.trans first.dues, fun h => first.only (second.only h)⟩

-- The note of a change of a task is another one.
theorem spent_status {task : Task} (hnotes : after.notes = queue.notes ++ [.status task])
    (hdue : after.drainDue = queue.drainDue) : Spent queue after :=
  ⟨by simp [Queue.dues, hnotes, hdue], fun h => hdue ▸ h⟩

-- A note that is given is no longer to come.
theorem spent_noteDrained (queue : Queue) : Spent queue queue.noteDrained := by
  unfold noteDrained
  split
  · rename_i h
    obtain ⟨hdue, _⟩ := Bool.and_eq_true_iff.mp h
    exact ⟨by simp [Queue.dues, hdue], fun hnot => absurd hnot Bool.false_ne_true⟩
  · exact .refl queue

theorem spent_cancelAll (queue : Queue) : Spent queue queue.cancelAll.1 := by
  have heach : ∀ (tasks : List Task) (queue : Queue), Spent queue
      (tasks.foldl (fun queue task => queue.update (cancelled task)) queue) := by
    intro tasks
    induction tasks with
    | nil => exact .refl
    | cons task tasks ih =>
        intro queue
        have hfirst : Spent queue (queue.update (cancelled task)) := spent_status rfl rfl
        exact hfirst.trans (ih _)
  exact (heach _ queue).trans (spent_noteDrained _)

theorem spent_launch (settings : Settings) (queue : Queue) :
    Spent queue (queue.launch settings).1 := by
  induction queue using Queue.launch.induct settings with
  | case1 queue hroom hnone =>
      rw [launch, if_pos hroom, hnone]
      exact spent_noteDrained queue
  | case2 queue hroom task hsome _ _ _ ih =>
      rw [launch, if_pos hroom, hsome]
      have hstart : Spent queue (queue.start task) := spent_status rfl rfl
      exact hstart.trans ih
  | case3 queue hfull =>
      rw [launch, if_neg hfull]
      exact spent_noteDrained queue

theorem spent_finish (settings : Settings) (sample : Binary64) (queue : Queue) (id : String)
    (outcome : Outcome) : Spent queue (queue.finish settings sample id outcome).1 := by
  simp only [finish]
  split
  · exact ⟨rfl, fun h => h⟩
  · split <;> exact spent_status rfl rfl

-- When nothing is going on, there is nothing to cancel.
theorem cancelAll_of_idle (hidle : queue.isIdle = true) (hdue : queue.drainDue = false) :
    queue.cancelAll = (queue, 0) := by
  have hnone : queue.tasks.filter (·.status.isCancellable) = [] := by
    apply List.filter_eq_nil_iff.mpr
    intro task hm hcancellable
    have hlive : task.status.isLive = true := by
      rcases Status.isCancellable_iff.mp hcancellable with hs | hs <;> rw [hs] <;> rfl
    rw [busy_of_mem hm hlive] at hidle
    cases hidle
  simp [cancelAll, hnone, noteDrained, hdue]

end Queue

-- How often the scheduler came to rest between two neighbours of a list.
def rests : List (Scheduler ω) → Nat
  | s :: s' :: later =>
      (if s.queue.isIdle = false ∧ s'.queue.isIdle = true then 1 else 0) + rests (s' :: later)
  | _ => 0

theorem rests_concat (past : List (Scheduler ω)) (s s' : Scheduler ω) :
    rests (past ++ [s] ++ [s']) =
      rests (past ++ [s]) + if s.queue.isIdle = false ∧ s'.queue.isIdle = true then 1 else 0 := by
  induction past with
  | nil => simp [rests]
  | cons first past ih =>
      cases past with
      | nil => simp [rests]
      | cons second past =>
          simp only [List.cons_append, rests] at ih ⊢
          rw [ih, Nat.add_assoc]

namespace Scheduler

variable {s s' s'' : Scheduler ω}

-- How often observers were told that the queue has drained.
def drains (s : Scheduler ω) : Nat := s.events.countP Event.isDrained

-- The same for a scheduler whose observers do not call back: what was told counts as well.
structure Spent (s s' : Scheduler ω) : Prop where
  quiet : s'.reactions = s.reactions
  dues : s'.drains + s'.queue.dues = s.drains + s.queue.dues
  only : s'.queue.drainDue = true → s.queue.drainDue = true

theorem Spent.trans (first : Spent s s') (second : Spent s' s'') : Spent s s'' :=
  ⟨second.quiet.trans first.quiet, second.dues.trans first.dues,
    fun h => first.only (second.only h)⟩

theorem Spent.of_queue {queue : Queue} (h : Queue.Spent s.queue queue) (ready : List (Job ω)) :
    Spent s { s with queue := queue, ready := ready } :=
  ⟨rfl, congrArg (s.drains + ·) h.dues, h.only⟩

theorem drains_eq_of_beside (h : Beside s s') : s'.drains = s.drains := by
  have hcount : ∀ s : Scheduler ω,
      s.drains = (s.events.filter (!·.isRun)).countP Event.isDrained := by
    intro s
    rw [drains, List.countP_filter]
    congr 1
    funext event
    cases event <;> rfl
  rw [hcount s', hcount s, h.events]

theorem Spent.of_beside (h : Beside s s') : Spent s s' :=
  ⟨h.reactions, by rw [drains_eq_of_beside h, h.queue], by rw [h.queue]; exact id⟩

-- Without calls from observers, telling them only empties the notes.
theorem queue_notifyAll (h : s.reactions = []) :
    s.notifyAll.queue = { s.queue with notes := [] } := by
  induction s using notifyAll.induct with
  | case1 s hnotes =>
      rw [notifyAll_of_nil hnotes, ← hnotes]
  | case2 s note rest hnotes ih =>
      rw [notifyAll_of_cons hnotes]
      have hnone : (s.withNotes rest).reactions.filter (Reaction.isDue note) = [] := by
        simp [withNotes, h]
      have hqueue := queue_notify_of_none (s.withNotes rest) note hnone
      rw [ih (by simp [withNotes, h]), hqueue]
      rfl

theorem spent_notify (h : s.reactions = []) {note : Note} {rest : List Note}
    (hnotes : s.queue.notes = note :: rest) : Spent s ((s.withNotes rest).notify note) := by
  have hnone : (s.withNotes rest).reactions.filter (Reaction.isDue note) = [] := by
    simp [withNotes, h]
  have hqueue := queue_notify_of_none (s.withNotes rest) note hnone
  refine ⟨by simp [withNotes, h], ?_, by rw [hqueue]; exact id⟩
  have hdrains : ((s.withNotes rest).notify note).drains =
      s.drains + if note = .drained then 1 else 0 := by
    simp only [notify, hnone, react, List.foldl_nil]
    cases note with
    | status task => simp [announce, releaseCaller, drains, log, withNotes, Event.isDrained]
    | drained =>
        simp only [releaseCaller]
        split <;> simp [announce, drains, log, withNotes, Event.isDrained]
  rw [hqueue, hdrains]
  simp only [withNotes, Queue.dues, hnotes, List.count_cons, beq_iff_eq]
  omega

theorem spent_notifyAll (h : s.reactions = []) : Spent s s.notifyAll := by
  induction s using notifyAll.induct with
  | case1 s hnotes =>
      rw [notifyAll_of_nil hnotes]
      exact ⟨rfl, rfl, id⟩
  | case2 s note rest hnotes ih =>
      rw [notifyAll_of_cons hnotes]
      have hnotify := spent_notify h hnotes
      exact hnotify.trans (ih (hnotify.quiet.trans h))

theorem spent_launch (h : s.reactions = []) : Spent s s.launch := by
  have hlaunch := Spent.of_queue (Queue.spent_launch s.settings s.queue) s.ready
  have htold := hlaunch.trans (spent_notifyAll h)
  exact ⟨htold.quiet, htold.dues, htold.only⟩

theorem spent_launchAfter (h : s.reactions = []) : Spent s s.notifyAll.launch := by
  have htold := spent_notifyAll h
  exact htold.trans (spent_launch (htold.quiet.trans h))

theorem spent_runJob (h : s.reactions = []) (job : Job ω) : Spent s (s.runJob job) := by
  obtain ⟨s', hbeside, hcases⟩ := runJob_cases job s
  have hquiet := hbeside.reactions.trans h
  refine (Spent.of_beside hbeside).trans ?_
  rcases hcases with he | ⟨id, outcome, _, he⟩ | ⟨timer, he⟩ <;> rw [he]
  · exact ⟨rfl, rfl, fun hdue => hdue⟩
  · have hfinish := Spent.of_queue (Queue.spent_finish s'.settings s'.sample s'.queue id outcome)
      (s'.ready ++ (s'.queue.finish s'.settings s'.sample id outcome).2.toList.map Job.setTimer)
    exact hfinish.trans (spent_launchAfter hquiet)
  · unfold expire
    cases hexpire : s'.queue.expire? timer.task timer.number with
    | none => exact ⟨rfl, rfl, id⟩
    | some queue =>
        obtain ⟨task, _, _, _, _, rfl⟩ := Queue.expire?_eq_some hexpire
        have hwake : Queue.Spent s'.queue
            (s'.queue.update { task with status := .pending, timer? := none }) :=
          Queue.spent_status rfl rfl
        exact (Spent.of_queue hwake s'.ready).trans (spent_launchAfter hquiet)

-- Between two operations the note is to come exactly while something is going on.
theorem Settled.dues_eq (h : s.Settled settings) :
    s.queue.dues = if s.queue.isIdle = false then 1 else 0 := by
  have hdue := h.queue.due
  rw [Queue.dues, h.told, List.count_nil, Nat.zero_add]
  cases hidle : s.queue.isIdle <;> cases hd : s.queue.drainDue <;> simp [hidle, hd] at hdue ⊢

-- An operation that puts no task into the queue tells of each rest that it comes to.
private theorem Spent.drains_eq (h : Spent s s') (hs : s.Settled settings)
    (hs' : s'.Settled settings) :
    s'.drains = s.drains + if s.queue.isIdle = false ∧ s'.queue.isIdle = true then 1 else 0 := by
  have hdues := h.dues
  have honly : s'.queue.isIdle = false → s.queue.isIdle = false :=
    fun hbusy => hs.queue.due.mp (h.only (hs'.queue.due.mpr hbusy))
  rw [hs.dues_eq, hs'.dues_eq] at hdues
  cases hidle : s.queue.isIdle <;> cases hidle' : s'.queue.isIdle <;>
    simp [hidle, hidle'] at hdues honly ⊢ <;> omega

-- An operation that puts a task into the queue comes to no rest, and tells of none.
private theorem drains_launchAfter (first : Scheduler ω) (hdrains : s.drains = first.drains)
    (hquiet : s.reactions = []) (hsame : s.settings = settings) (hdue : s.queue.drainDue = true)
    (hnotes : s.queue.notes.count .drained = 0) (hbusy : s.queue.isIdle = false) :
    s.notifyAll.launch.reactions = [] ∧ s.notifyAll.launch.drains = first.drains +
      if first.queue.isIdle = false ∧ s.notifyAll.launch.queue.isIdle = true then 1 else 0 := by
  have htold := spent_notifyAll hquiet
  have hspent := spent_launchAfter hquiet
  have hsettled := settled_launchAfter hsame fun _ => hdue
  have hgoes : s.notifyAll.launch.queue.isIdle = false := by
    have hbusy' : s.notifyAll.queue.isIdle = false := by
      rw [queue_notifyAll hquiet]
      exact hbusy
    have hqueue : s.notifyAll.launch.queue =
        { (s.notifyAll.queue.launch s.notifyAll.settings).1 with notes := [] } :=
      queue_notifyAll
        (s := { s.notifyAll with queue := (s.notifyAll.queue.launch s.notifyAll.settings).1 })
        (htold.quiet.trans hquiet)
    rw [hqueue]
    exact Queue.isIdle_launch hbusy'
  have hdues := hspent.dues
  rw [hsettled.dues_eq, if_pos hgoes, Queue.dues, hnotes, hdue, Bool.toNat_true] at hdues
  refine ⟨hspent.quiet.trans hquiet, ?_⟩
  rw [if_neg (by simp [hgoes])]
  omega

theorem Step.drains {moments : List Moment} (hstep : Step s moments s') (hcoherent : s.Coherent 0)
    (h : s.Settled settings) (hquiet : s.reactions = []) :
    s'.reactions = [] ∧ s'.drains =
      s.drains + if s.queue.isIdle = false ∧ s'.queue.isIdle = true then 1 else 0 := by
  have hsettled := hstep.settled hcoherent h
  have hspent : Spent s s' → s'.reactions = [] ∧ s'.drains =
      s.drains + if s.queue.isIdle = false ∧ s'.queue.isIdle = true then 1 else 0 :=
    fun hs => ⟨hs.quiet.trans hquiet, hs.drains_eq h hsettled⟩
  cases hstep with
  | enqueue request work hfresh =>
      have hmem : s.queue.newTask s.settings request ∈
          (s.queue.add (s.queue.newTask s.settings request)).tasks :=
        List.mem_append_right _ (List.mem_singleton_self _)
      exact drains_launchAfter (s := { s with
        queue := s.queue.add (s.queue.newTask s.settings request)
        works := (request.id, work) :: s.works }) s rfl hquiet h.same rfl
        (by simp [Queue.add, h.told]) (Queue.busy_of_mem hmem rfl)
  | cancel id =>
      apply hspent
      unfold Scheduler.cancel
      cases hcancel : s.queue.cancel? id with
      | none => exact ⟨rfl, rfl, fun hdue => hdue⟩
      | some queue =>
          obtain ⟨task, _, _, _, rfl⟩ := Queue.cancel?_eq_some hcancel
          have hupdate : Queue.Spent s.queue (s.queue.update (Queue.cancelled task)) :=
            Queue.spent_status rfl rfl
          have hwrite := Spent.of_queue (hupdate.trans (Queue.spent_noteDrained _)) s.ready
          exact hwrite.trans (spent_notifyAll hquiet)
  | cancelAll =>
      have hwrite := Spent.of_queue (Queue.spent_cancelAll s.queue) s.ready
      exact hspent (hwrite.trans (spent_notifyAll hquiet))
  | retry id =>
      revert hsettled hspent
      unfold Scheduler.retry
      cases hretry : s.queue.retry id with
      | error e => exact fun _ hspent => hspent ⟨rfl, rfl, fun hdue => hdue⟩
      | ok result =>
          intro _ _
          obtain ⟨queue, renewal⟩ := result
          obtain ⟨task, hm, _, _, _, rfl⟩ := Queue.retry_eq_ok hretry
          have hmem : Queue.renewed task ∈ (s.queue.update (Queue.renewed task)).tasks :=
            List.mem_map.mpr ⟨task, hm, if_pos rfl⟩
          exact drains_launchAfter (s := { s with
            queue := { s.queue.update (Queue.renewed task) with drainDue := true } }) s rfl hquiet
            h.same rfl (by simp [Queue.update, h.told]) (Queue.busy_of_mem hmem rfl)
  | job job earlier later hready =>
      have htaken : Spent s { s with ready := earlier ++ later } := ⟨rfl, rfl, fun hdue => hdue⟩
      exact hspent (htaken.trans (spent_runJob (htaken.quiet.trans hquiet) job))
  | _ => exact hspent ⟨rfl, rfl, fun hdue => hdue⟩

-- What the notes that the queue has drained tell of a run.
structure Tallied (past : List (Scheduler ω)) (s : Scheduler ω) : Prop where
  -- Whenever an operation is over, a note is to come exactly if something is going on.
  due : ∀ other ∈ past ++ [s], other.queue.drainDue = true ↔ other.queue.isIdle = false
  -- There was one note for each time that the queue came to rest.
  rests : s.drains = rests (past ++ [s])
  pruned : s.prune.1.events = s.events
  cancelRefused : ∀ id, (s.cancel id).2 = false → (s.cancel id).1 = s
  cancelAllIdle : s.queue.isIdle = true → s.cancelAll.1 = s

theorem cancelAll_of_idle (h : s.Settled settings) (hidle : s.queue.isIdle = true) :
    s.cancelAll.1 = s := by
  have hdue : s.queue.drainDue = false := by
    rw [← Bool.not_eq_true]
    intro hd
    rw [h.queue.due.mp hd] at hidle
    cases hidle
  simp only [cancelAll, Queue.cancelAll_of_idle hidle hdue]
  exact notifyAll_of_nil h.told

theorem Run.tallied {world : ω} {past : List (Scheduler ω)} {journal : List Moment}
    (hrun : Run settings world [] past journal s) : s.Tallied past := by
  have hall : s.reactions = [] ∧ s.drains = rests (past ++ [s]) ∧
      ∀ other ∈ past ++ [s], other.queue.drainDue = true ↔ other.queue.isIdle = false := by
    induction hrun with
    | start =>
        refine ⟨rfl, rfl, ?_⟩
        simp [Scheduler.start, Queue.empty, Queue.isIdle]
    | step hrun hstep ih =>
        obtain ⟨hquiet, hdrains, hdue⟩ := ih
        obtain ⟨hquiet', hdrains'⟩ := hstep.drains hrun.leads.coherent hrun.settled hquiet
        refine ⟨hquiet', ?_, ?_⟩
        · rw [hdrains', rests_concat, hdrains]
        · intro other ho
          rcases List.mem_append.mp ho with ho | ho
          · exact hdue other ho
          · rw [List.mem_singleton.mp ho]
            exact (hrun.step hstep).settled.queue.due
  obtain ⟨_, hdrains, hdue⟩ := hall
  exact ⟨hdue, hdrains, rfl, fun id hrefused => (cancel_refused hrefused).2,
    cancelAll_of_idle hrun.settled⟩

-- The queue comes to rest once its only task has succeeded.
theorem tallied_attemptFirst :
    let s := enqueueFirst {} () ⟨"a", .unknown, none, none, none⟩ fun _ => .finish .succeeded
    let s' := attemptFirst {} () ⟨"a", .unknown, none, none, none⟩ fun _ => .finish .succeeded
    s'.drains = 1 ∧ s'.Tallied [.start {} () [], s] := by
  intro s s'
  refine ⟨?_, (Run.attemptFirst {} () _ _ (by decide)).tallied⟩
  simp [s', attemptFirst, enqueueFirst, start, enqueue, launch, notifyAll, notify, withNotes,
    announce, react, releaseCaller, log, runJob, attempt, perform, settle, Queue.launch,
    Queue.foremost?, Queue.tasksIn, Queue.add, Queue.empty, Queue.newTask, Queue.start,
    Queue.started, Queue.update, Queue.noteDrained, Queue.isIdle, Queue.finish, Queue.find?,
    Queue.attempted, Outcome.isSuccess, drains, Event.isDrained, Status.isLive]

end Scheduler

end LivePreview.Retry
