import LivePreview.Proofs.Scheduling.Delivery

namespace LivePreview.Retry

namespace Scheduler

variable {ω : Type} {s : Scheduler ω} {hand : Multiset (Job ω)}

theorem Coherent.leads_enqueue (h : s.Coherent hand) (request : TaskRequest) (work : Nat → Work ω)
    (hfresh : request.id ∉ s.works.map Prod.fst) :
    s.Leads hand (s.enqueueMoments request work) (s.enqueue request work).1 hand := by
  have hadd : s.Leads hand
      [⟨.enqueue request.id, (s.queue.add (s.queue.newTask s.settings request)).tasks⟩]
      { s with
        queue := s.queue.add (s.queue.newTask s.settings request)
        works := (request.id, work) :: s.works } hand :=
    h.lift (h.fits.leads_add request hfresh) rfl rfl rfl
  exact hadd.trans hadd.coherent.leads_launchAfter

theorem Coherent.leads_cancel (h : s.Coherent hand) (id : String) :
    s.Leads hand (s.cancelMoments id) (s.cancel id).1 hand := by
  unfold cancelMoments cancel
  cases hcancel : s.queue.cancel? id with
  | none => exact .refl h
  | some queue =>
      have hwrite := h.leads_queue (h.fits.leads_cancel hcancel)
      exact hwrite.trans hwrite.coherent.leads_notifyAll

theorem Coherent.leads_cancelAll (h : s.Coherent hand) :
    s.Leads hand s.cancelAllMoments s.cancelAll.1 hand := by
  have hwrite := h.leads_queue h.fits.leads_cancelAll
  exact hwrite.trans hwrite.coherent.leads_notifyAll

theorem Coherent.leads_retry (h : s.Coherent hand) (id : String) :
    s.Leads hand (s.retryMoments id) (s.retry id).1 hand := by
  unfold retryMoments retry
  cases hretry : s.queue.retry id with
  | error e => exact .refl h
  | ok result =>
      have hwrite := h.leads_queue (h.fits.leads_retry hretry)
      exact hwrite.trans hwrite.coherent.leads_launchAfter

theorem Coherent.leads_prune (h : s.Coherent hand) :
    s.Leads hand s.pruneMoments s.prune.1 hand :=
  h.leads_queue h.fits.leads_prune

-- The end of an attempt gives its job back; a timer that is to be set is ready at once.
theorem Coherent.leads_settle {id : String} {work : Work ω}
    (h : s.Coherent (.resume id work ::ₘ hand)) (outcome : Outcome) :
    s.Leads (.resume id work ::ₘ hand) (s.settleMoments id outcome) (s.settle id outcome) hand := by
  have hwrite : s.Leads (.resume id work ::ₘ hand)
      [⟨.finish id, (s.queue.finish s.settings s.sample id outcome).1.tasks⟩]
      { s with
        queue := (s.queue.finish s.settings s.sample id outcome).1
        ready := s.ready ++
          (s.queue.finish s.settings s.sample id outcome).2.toList.map Job.setTimer } hand := by
    refine h.lift ?_ rfl rfl rfl
    have hfinish := h.fits.leads_finish (jobs_situation_cons s _ hand) s.sample outcome
    have hjobs := jobs_ready_append s
      ((s.queue.finish s.settings s.sample id outcome).2.toList.map Job.setTimer)
    dsimp only [situation, timerJobs] at hfinish ⊢
    rw [add_left_comm, ← hjobs] at hfinish
    exact hfinish
  exact hwrite.trans hwrite.coherent.leads_launchAfter

-- A timer that is no longer set does nothing when it runs out.
private theorem Coherent.not_isSet (h : s.Coherent hand) {timer : Timer}
    (hexpire : s.queue.expire? timer.task timer.number = none) :
    s.queue.isSet timer.task timer.number = false := by
  unfold Queue.expire? at hexpire
  unfold Queue.isSet
  cases hfind : s.queue.find? timer.task with
  | none => rfl
  | some task =>
      have hsound := h.fits.sound.tasks task (Queue.mem_of_find?_eq_some hfind).1
      simp only [hfind, ite_eq_right_iff, reduceCtorEq, imp_false] at hexpire
      rw [Option.any_some, beq_eq_false_iff_ne]
      intro hnumber
      exact hexpire ⟨hsound.timed.mp (by rw [hnumber]; rfl), hnumber⟩

-- The job of a timer that is not set may be given up.
private theorem Coherent.leads_drop {job : Job ω} {timer : Timer} (h : s.Coherent (job ::ₘ hand))
    (howed : job.owed = 0) (hrunning : job.running = 0) (htimers : job.timers = {timer})
    (hnot : s.queue.isSet timer.task timer.number = false) : s.Leads (job ::ₘ hand) [] s hand :=
  h.lift (h.fits.leads_drop (jobs_situation_cons s job hand) howed hrunning htimers hnot) rfl rfl
    rfl

theorem Coherent.leads_expire {job : Job ω} {timer : Timer} (h : s.Coherent (job ::ₘ hand))
    (howed : job.owed = 0) (hrunning : job.running = 0) (htimers : job.timers = {timer}) :
    s.Leads (job ::ₘ hand) (s.expireMoments timer) (s.expire timer) hand := by
  unfold expireMoments expire
  cases hexpire : s.queue.expire? timer.task timer.number with
  | none => exact h.leads_drop howed hrunning htimers (h.not_isSet hexpire)
  | some queue =>
      obtain ⟨hwake, hnot⟩ := h.fits.leads_expire hexpire
      have hwrite := h.leads_queue hwake
      have hdrop := hwrite.trans (hwrite.coherent.leads_drop howed hrunning htimers hnot)
      exact hdrop.trans hdrop.coherent.leads_launchAfter

theorem Coherent.leads_setTimer {timer : Timer} (h : s.Coherent (.setTimer timer ::ₘ hand)) :
    s.Leads (.setTimer timer ::ₘ hand) (s.setTimerMoments timer) (s.setTimer timer) hand := by
  unfold setTimerMoments setTimer
  cases hset : s.queue.isSet timer.task timer.number with
  | false => exact h.leads_drop rfl rfl rfl hset
  | true =>
      simp only [if_true]
      split
      · exact h.leads_expire rfl rfl rfl
      · refine h.leads_beside ⟨rfl, rfl, rfl, rfl, rfl⟩ rfl h.names
          (.turn (.expire timer) rfl rfl rfl ?_)
        rw [jobs_alarm, Multiset.add_cons]

-- An attempt goes on with its work until it waits or ends, whatever happens to the world and to the
-- names that it holds.
theorem Coherent.leads_perform {id : String} (work : Work ω)
    (h : s.Coherent (.resume id work ::ₘ hand)) :
    s.Leads (.resume id work ::ₘ hand) (performMoments id work s) (perform id work s) hand := by
  induction work generalizing s with
  | finish outcome => exact h.leads_settle outcome
  | act change next ih =>
      have hgoes : s.Leads (.resume id (.act change next) ::ₘ hand) []
          { s with world := change s.world } (.resume id (next (change s.world)) ::ₘ hand) :=
        h.leads_beside ⟨rfl, rfl, rfl, rfl, rfl⟩ rfl h.names
          (.turn (.resume id (next (change s.world))) rfl rfl rfl (Multiset.cons_add _ _ _))
      exact hgoes.trans (ih _ hgoes.coherent)
  | sleep span next ih =>
      unfold performMoments perform
      split
      · have hgoes : s.Leads (.resume id (.sleep span next) ::ₘ hand) [] s
            (.resume id next ::ₘ hand) :=
          h.leads_beside ⟨rfl, rfl, rfl, rfl, rfl⟩ rfl h.names
            (.turn (.resume id next) rfl rfl rfl (Multiset.cons_add _ _ _))
        exact hgoes.trans (ih hgoes.coherent)
      · refine h.leads_beside ⟨rfl, rfl, rfl, rfl, rfl⟩ rfl h.names
          (.turn (.resume id next) rfl rfl rfl ?_)
        rw [jobs_alarm, Multiset.add_cons]
  | hold name next ih =>
      unfold performMoments perform
      cases hlookup : s.held.lookup name with
      | none =>
          have hfree : name ∉ s.held.map Prod.fst := by
            intro hm
            obtain ⟨entry, he, heq⟩ := List.mem_map.mp hm
            exact absurd (List.lookup_eq_none_iff.mp hlookup entry he) (by simp [heq])
          have hgoes : s.Leads (.resume id (.hold name next) ::ₘ hand) []
              { s with held := (name, []) :: s.held } (.resume id next ::ₘ hand) :=
            h.leads_beside ⟨rfl, rfl, rfl, rfl, rfl⟩ rfl (List.nodup_cons.mpr ⟨hfree, h.names⟩)
              (.turn (.resume id next) rfl rfl rfl (Multiset.cons_add _ _ _))
          exact hgoes.trans (ih hgoes.coherent)
      | some waiting =>
          have hjobs := jobs_hold s h.names hlookup (.resume id next)
          have hsame := names_heldWith s.held name (waiting ++ [.resume id next])
          rw [heldWith] at hjobs hsame
          refine h.leads_beside ⟨rfl, rfl, rfl, rfl, rfl⟩ rfl (hsame ▸ h.names)
            (.turn (.resume id next) rfl rfl rfl ?_)
          dsimp only
          rw [hjobs, Multiset.add_cons]
  | release name next ih =>
      have hgoes : s.Leads (.resume id (.release name next) ::ₘ hand) [] (s.release name)
          (.resume id next ::ₘ hand) := by
        obtain ⟨hbeside, hruns⟩ := beside_release s name
        refine h.leads_beside hbeside hruns (names_release s h.names name)
          (.turn (.resume id next) rfl rfl rfl ?_)
        rw [jobs_release s h.names name, Multiset.cons_add]
      exact hgoes.trans (ih hgoes.coherent)

-- When a launched attempt begins, the work of its task is called.
theorem Coherent.leads_begin {id : String} (h : s.Coherent (.attempt id ::ₘ hand))
    (work : Work ω) :
    s.Leads (.attempt id ::ₘ hand) [⟨.invoke id, s.queue.tasks⟩]
      ({ s with runs := id :: s.runs }.log (.run id (s.runs.count id + 1) s.now))
      (.resume id work ::ₘ hand) := by
  refine h.lift ?_ rfl ?_ rfl
  · have hinvoke := h.fits.leads_invoke (jobs_situation_cons s _ hand) work
    rw [← Multiset.cons_add] at hinvoke
    exact hinvoke
  · rw [told_log]
    exact List.append_nil _

theorem Coherent.leads_attempt {id : String} (h : s.Coherent (.attempt id ::ₘ hand)) :
    s.Leads (.attempt id ::ₘ hand) (s.attemptMoments id) (s.attempt id) hand := by
  unfold attemptMoments attempt
  cases hwork : s.works.lookup id with
  | some work =>
      have hbegin := h.leads_begin (work (s.runs.count id + 1))
      simp only [log, hwork]
      exact hbegin.trans (hbegin.coherent.leads_perform _)
  | none =>
      have hbegin := h.leads_begin (.finish .returnedFalse)
      simp only [log, hwork]
      exact hbegin.trans (hbegin.coherent.leads_settle _)

theorem Coherent.leads_job {job : Job ω} (h : s.Coherent (job ::ₘ hand)) :
    s.Leads (job ::ₘ hand) (s.jobMoments job) (s.runJob job) hand := by
  cases job with
  | attempt id => exact h.leads_attempt
  | resume id work => exact h.leads_perform work
  | setTimer timer => exact h.leads_setTimer
  | expire timer => exact h.leads_expire rfl rfl rfl
  | caller =>
      refine h.leads_beside ⟨rfl, rfl, rfl, rfl, rfl⟩ rfl h.names ?_
      rw [Multiset.cons_add]
      exact .symm .caller

-- A job that is taken from those that are ready is in hand.
theorem Coherent.leads_take (h : s.Coherent 0) {job : Job ω} {earlier later : List (Job ω)}
    (hready : s.ready = earlier ++ job :: later) :
    s.Leads 0 [] { s with ready := earlier ++ later } {job} := by
  refine h.leads_beside ⟨rfl, rfl, rfl, rfl, rfl⟩ rfl h.names (.of_eq ?_)
  rw [jobs_ready_split s hready, zero_add, Multiset.singleton_add]

-- What one operation or event does.
theorem Step.leads {moments : List Moment} {s' : Scheduler ω} (hstep : Step s moments s')
    (h : s.Coherent 0) : s.Leads 0 moments s' 0 := by
  cases hstep with
  | enqueue request work hfresh => exact h.leads_enqueue request work hfresh
  | cancel id => exact h.leads_cancel id
  | cancelAll => exact h.leads_cancelAll
  | retry id => exact h.leads_retry id
  | prune => exact h.leads_prune
  | job job earlier later hready =>
      have htaken := h.leads_take hready
      exact htaken.trans htaken.coherent.leads_job
  | ring due job earlier later halarms =>
      exact h.leads_beside ⟨rfl, rfl, rfl, rfl, rfl⟩ rfl h.names
        (.of_eq (congrArg (0 + ·) (jobs_ring s halarms)))
  | sleep due =>
      refine h.leads_beside ⟨rfl, rfl, rfl, rfl, rfl⟩ rfl h.names ?_
      rw [jobs_alarm, Multiset.add_cons]
      exact .caller
  | outside world now sample awaited =>
      exact h.leads_beside ⟨rfl, rfl, rfl, rfl, rfl⟩ rfl h.names (.of_eq rfl)
  | reorder tasks hperm => exact h.leads_queue (h.fits.leads_reorder hperm)

theorem coherent_start (settings : Settings) (world : ω) (reactions : List Reaction) :
    (start settings world reactions).Coherent 0 := by
  refine ⟨⟨Ledger.sound_empty, ?_, rfl, Nat.zero_le _, rfl, ?_, ?_, ?_, ?_⟩, ?_⟩
  all_goals simp [situation, jobs, start, Queue.empty, runningBy, timersOf, runningIds]

-- What a whole run does.
theorem Run.leads {settings : Settings} {world : ω} {reactions : List Reaction}
    {past : List (Scheduler ω)} {journal : List Moment}
    (hrun : Run settings world reactions past journal s) :
    (Scheduler.start settings world reactions).Leads 0 journal s 0 := by
  induction hrun with
  | start => exact .refl (coherent_start settings world reactions)
  | step _ hstep ih => exact ih.trans (hstep.leads ih.coherent)

-- The timers that will wake a task when they run out. A timer of a task that was cancelled
-- meanwhile may still run out, but is no longer set.
def armed (s : Scheduler ω) : Multiset Timer :=
  (timersOf s.jobs).filter fun timer => s.queue.isSet timer.task timer.number = true

-- The counter, the table and the jobs of a scheduler agree, and each task is sound.
structure Consistent (settings : Settings) (s : Scheduler ω) : Prop where
  active : s.queue.active = s.queue.stats.inProgress
  within : s.queue.active ≤ settings.concurrency
  numbers : (s.queue.tasks.map (·.created)).Nodup
  tasks : ∀ task ∈ s.queue.tasks, task.Sound
  -- An attempt that ends finds its task, and the counter above zero.
  underWay : ∀ id ∈ runningBy s.jobs, 1 ≤ s.queue.active ∧
    ∃ task, s.queue.find? id = some task ∧ task.status = .inProgress
  attempts : runningBy s.jobs = (runningIds s.queue.tasks : Multiset String)
  -- Each waiting task has one timer, and no other task has any.
  timers : s.armed.map (·.task) =
    ((s.queue.tasksIn (some .waiting)).map (·.id) : Multiset String)

private theorem isSet_iff (h : s.Coherent 0) {timer : Timer} :
    s.queue.isSet timer.task timer.number = true ↔
      ∃ task ∈ s.queue.tasks, task.id = timer.task ∧ task.timer? = some timer.number := by
  simp only [Queue.isSet, Option.any_eq_true, beq_iff_eq]
  constructor
  · rintro ⟨task, hfind, hnumber⟩
    obtain ⟨hmem, hid⟩ := Queue.mem_of_find?_eq_some hfind
    exact ⟨task, hmem, hid, hnumber⟩
  · rintro ⟨task, hmem, hid, hnumber⟩
    exact ⟨task, hid ▸ Queue.find?_eq_some_of_mem h.fits.ids hmem, hnumber⟩

private theorem mem_waiting {id : String} :
    id ∈ ((s.queue.tasksIn (some .waiting)).map (·.id) : Multiset String) ↔
      ∃ task ∈ s.queue.tasks, task.id = id ∧ task.status = .waiting := by
  simp only [Queue.tasksIn, Option.all_some, Multiset.mem_coe, List.mem_map, List.mem_filter,
    beq_iff_eq]
  constructor
  · rintro ⟨task, ⟨hmem, hstatus⟩, hid⟩
    exact ⟨task, hmem, hid, hstatus⟩
  · rintro ⟨task, hmem, hid, hstatus⟩
    exact ⟨task, ⟨hmem, hstatus⟩, hid⟩

-- Both sides name each waiting task once: two timers set for one task have one number, and no two
-- timers share a number.
private theorem armed_eq_waiting (h : s.Coherent 0) :
    s.armed.map (·.task) = ((s.queue.tasksIn (some .waiting)).map (·.id) : Multiset String) := by
  have hjobs : timersOf (s.situation 0).jobs = timersOf s.jobs := congrArg timersOf (zero_add _)
  have hdistinct : ((timersOf s.jobs).map (·.number)).Nodup := hjobs ▸ h.fits.distinct
  have hleft : (s.armed.map (·.task)).Nodup := by
    refine Multiset.Nodup.map_on ?_ ((Multiset.Nodup.of_map _ hdistinct).filter _)
    intro timer ht other ho he
    obtain ⟨hm, hset⟩ := Multiset.mem_filter.mp ht
    obtain ⟨hm', hset'⟩ := Multiset.mem_filter.mp ho
    obtain ⟨task, htask, hid, hnumber⟩ := (isSet_iff h).mp hset
    obtain ⟨task', htask', hid', hnumber'⟩ := (isSet_iff h).mp hset'
    have hsame := task_eq_of_id_eq h.fits.ids htask htask' (by rw [hid, hid', he])
    subst hsame
    rw [hnumber, Option.some.injEq] at hnumber'
    exact Multiset.inj_on_of_nodup_map hdistinct timer hm other hm' hnumber'
  have hright : ((s.queue.tasksIn (some .waiting)).map (·.id) : Multiset String).Nodup :=
    Multiset.coe_nodup.mpr (h.fits.ids.sublist (List.filter_sublist.map _))
  refine (Multiset.Nodup.ext hleft hright).mpr fun id => ?_
  rw [mem_waiting]
  constructor
  · intro hm
    obtain ⟨timer, ht, rfl⟩ := Multiset.mem_map.mp hm
    obtain ⟨task, htask, hid, hnumber⟩ := (isSet_iff h).mp (Multiset.mem_filter.mp ht).2
    have htimed := (h.fits.sound.tasks task htask).timed
    exact ⟨task, htask, hid, htimed.mp (by rw [hnumber]; rfl)⟩
  · rintro ⟨task, htask, rfl, hstatus⟩
    have htimed := (h.fits.sound.tasks task htask).timed
    obtain ⟨number, hnumber⟩ := Option.isSome_iff_exists.mp (htimed.mpr hstatus)
    obtain ⟨timer, ht, hid, rfl⟩ := h.fits.armed task htask number hnumber
    rw [hjobs] at ht
    have hset := (isSet_iff h).mpr ⟨task, htask, hid.symm, hnumber⟩
    exact Multiset.mem_map.mpr ⟨timer, Multiset.mem_filter.mpr ⟨ht, hset⟩, hid⟩

-- Whatever happens in whatever order, the scheduler stays consistent.
theorem Run.consistent {settings : Settings} {world : ω} {reactions : List Reaction}
    {past : List (Scheduler ω)} {journal : List Moment}
    (hrun : Run settings world reactions past journal s) : s.Consistent settings := by
  have hleads := hrun.leads
  have h := hleads.coherent
  have hsettings : s.settings = settings := hleads.settings
  have hrunning : runningBy s.jobs = (runningIds s.queue.tasks : Multiset String) := by
    have hall := h.fits.running
    rwa [situation, zero_add] at hall
  have hactive : s.queue.active = (runningIds s.queue.tasks).length := h.fits.active
  refine ⟨?_, ?_, h.fits.sound.created, h.fits.sound.tasks, ?_, hrunning, armed_eq_waiting h⟩
  · rw [hactive, Queue.stats_inProgress]
  · exact hsettings ▸ h.fits.within
  · intro id hm
    rw [hrunning, Multiset.mem_coe] at hm
    obtain ⟨task, hmem, rfl, hstatus⟩ := mem_runningIds.mp hm
    refine ⟨?_, task, Queue.find?_eq_some_of_mem h.fits.ids hmem, hstatus⟩
    rw [hactive]
    exact List.length_pos_of_mem hm

-- A task whose first attempt failed waits for the next one.
theorem consistent_attemptFirst :
    let s := attemptFirst {} () ⟨"a", .unknown, none, none, none⟩ fun _ => .finish .returnedFalse
    s.queue.stats.waiting = 1 ∧ s.Consistent {} := by
  intro s
  refine ⟨?_, (Run.attemptFirst {} () _ _ (by decide)).consistent⟩
  simp [s, attemptFirst, enqueueFirst, start, enqueue, launch, notifyAll, notify, withNotes,
    announce, react, releaseCaller, log, runJob, attempt, perform, settle, Queue.launch,
    Queue.foremost?, Queue.tasksIn, Queue.add, Queue.empty, Queue.newTask, Queue.start,
    Queue.started, Queue.update, Queue.noteDrained, Queue.isIdle, Queue.finish, Queue.find?,
    Queue.attempted, Outcome.isSuccess, Queue.stats, Stats.ofTasks, Status.isLive]

end Scheduler

end LivePreview.Retry
