import LivePreview.Proofs.Scheduling.Effort

namespace LivePreview.Retry

namespace Scheduler

variable {ω : Type} {s : Scheduler ω} {Inv : List (String × Outcome) → ω → Prop} {most : Nat}
  {mine : Option String} {hand : Multiset (Job ω)} {ended : List (String × Outcome)}

-- A scheduler whose work is disciplined and from whose table no task was taken away: `ended` are the
-- attempts that have ended, in order.
structure Tended (Inv : List (String × Outcome) → ω → Prop) (most : Nat) (mine : Option String)
    (hand : Multiset (Job ω)) (ended : List (String × Outcome)) (s : Scheduler ω) : Prop where
  disciplined : s.Disciplined Inv most mine
  coherent : s.Coherent hand
  settled : s.Settled s.settings
  books : (s.situation hand).ledger.Books most ended
  callers : .caller ∈ s.jobs → s.queue.isIdle = true

namespace Tended

-- While an attempt is under way, nobody is about to go on who waits for the queue to drain.
theorem busy {id : String} {work : Work ω}
    (h : s.Tended Inv most mine (.resume id work ::ₘ hand) ended) :
    s.queue.isIdle = false ∧ .caller ∉ s.jobs := by
  obtain ⟨task, hmem, _, hstatus, _⟩ :=
    h.coherent.fits.exists_running (jobs_situation_cons s _ hand)
  have hbusy : s.queue.isIdle = false := Queue.busy_of_mem hmem (by rw [hstatus]; rfl)
  exact ⟨hbusy, fun hm => by rw [h.callers hm] at hbusy; cases hbusy⟩

-- A write of the table after which what can be launched is launched.
theorem of_launch (first : Scheduler ω) {cause : Cause} {more : List (String × Outcome)}
    (hleads : s.Leads hand (⟨cause, first.queue.tasks⟩ :: first.launchAfterMoments)
      first.notifyAll.launch 0)
    (hsound : (s.situation hand).ledger.Sound) (hstaged : first.Staged Inv most)
    (hbooks : ((s.situation hand).ledger.after ⟨cause, first.queue.tasks⟩).Books most more)
    (hdue : first.queue.Due) :
    first.notifyAll.launch.Tended Inv most none 0 more ∧
      first.notifyAll.launch.effort 0 =
        11 * ((s.situation hand).ledger.after ⟨cause, first.queue.tasks⟩).due + first.load +
          first.alarms.length + first.awaited.toNat ∧
      first.notifyAll.launch.world = first.world := by
  obtain ⟨hdisciplined, hidle, hload, halarms, hworld⟩ := hstaged.launch
  obtain ⟨hplay, heven⟩ := hbooks.play_launches (hleads.lawful.1.sound hsound) hleads.lawful.2
    (cause_launchAfterMoments hstaged.disciplined.quiet)
  have hplayed := hleads.played
  rw [Ledger.play_cons] at hplayed
  rw [hplayed] at hplay heven
  have hsettled : first.notifyAll.launch.Settled first.settings := settled_launchAfter rfl hdue
  have hsettings : first.notifyAll.launch.settings = first.settings := hsettled.same
  refine ⟨⟨hdisciplined, hleads.coherent, hsettings ▸ hsettled, hplay, hidle⟩, ?_, hworld⟩
  rw [effort, heven, halarms]
  omega

-- The scheduler when the end of an attempt is noted and nothing is launched yet.
private def finishing (s : Scheduler ω) (id : String) (outcome : Outcome) : Scheduler ω :=
  { s with
    queue := (s.queue.finish s.settings s.sample id outcome).1
    ready := s.ready ++
      (s.queue.finish s.settings s.sample id outcome).2.toList.map Job.setTimer }

-- The end of an attempt, of which a timer may be left that is to be set.
theorem settle {id : String} {work : Work ω}
    (h : s.Tended Inv most none (.resume id work ::ₘ 0) ended) (outcome : Outcome) :
    (s.settle id outcome).Tended Inv most none 0 (ended ++ [(id, outcome)]) ∧
      (s.settle id outcome).effort 0 ≤ s.effort (.resume id work ::ₘ 0) + 3 ∧
      (s.settle id outcome).world = s.world := by
  obtain ⟨hbusy, hcallers⟩ := h.busy
  have hsound := h.coherent.fits.sound
  obtain ⟨task, hmem, rfl, hstatus, _⟩ :=
    h.coherent.fits.exists_running (jobs_situation_cons s _ 0)
  have htimer := (hsound.tasks task hmem).timer_eq_none (by rw [hstatus]; decide)
  have hfind : s.queue.find? task.id = some task :=
    Queue.find?_eq_some_of_mem h.coherent.fits.ids hmem
  obtain ⟨timer?, he, _, _⟩ := Queue.finish_eq s.settings s.sample hfind htimer outcome
  have htasks : (finishing s task.id outcome).queue.tasks =
      replaceTask s.queue.tasks (Queue.attempted s.settings s.queue.timers task outcome) := by
    rw [finishing, he]
    rfl
  have hready : (finishing s task.id outcome).ready =
      s.ready ++ timer?.toList.map Job.setTimer := by rw [finishing, he]
  have hload : (finishing s task.id outcome).load = _ := load_of_append hready rfl rfl
  have hstaged : (finishing s task.id outcome).Staged Inv most := by
    refine ⟨h.disciplined.extend rfl rfl rfl rfl rfl hready fun job hm => ?_, ?_, ?_⟩
    · obtain ⟨timer, _, rfl⟩ := List.mem_map.mp hm
      trivial
    · rw [finishing, he]
      simp [Queue.update, h.settled.told]
    · rw [jobs_of_append hready rfl rfl, Multiset.mem_add, Multiset.mem_coe]
      rintro (hm | hm)
      · obtain ⟨timer, _, he⟩ := List.mem_map.mp hm
        cases he
      · exact hcallers hm
  have hbooks := h.books.finish hsound hmem hstatus s.settings s.queue.timers outcome
  have hless := Ledger.due_finish hsound hmem hstatus s.settings s.queue.timers outcome
  have hdue : (finishing s task.id outcome).queue.Due := fun _ =>
    (drainDue_finish s.settings s.sample s.queue task.id outcome).trans
      (h.settled.queue.due.mpr hbusy)
  obtain ⟨htended, heffort, hworld⟩ := of_launch (finishing s task.id outcome)
    (h.coherent.leads_settle outcome) hsound hstaged (htasks ▸ hbooks) hdue
  refine ⟨htended, ?_, hworld⟩
  have htimers : ((timer?.toList.map Job.setTimer : List (Job ω)).map Job.weight).sum ≤ 3 := by
    cases timer? <;> simp [Job.weight]
  have hsame : (finishing s task.id outcome).alarms.length = s.alarms.length ∧
      (finishing s task.id outcome).awaited = s.awaited := ⟨rfl, rfl⟩
  have hafter : (s.settle task.id outcome).effort 0 =
      (finishing s task.id outcome).notifyAll.launch.effort 0 := rfl
  rw [hafter, heffort, htasks, hload, hsame.1, hsame.2, effort]
  dsimp only [situation, Situation.ledger] at hless ⊢
  omega

-- A timer runs out: its task is pending again, or it was no longer set.
theorem expire {job : Job ω} {timer : Timer}
    (h : s.Tended Inv most none (job ::ₘ 0) ended) (howed : job.owed = 0)
    (hrunning : job.running = 0) (htimers : job.timers = {timer}) :
    (s.expire timer).Tended Inv most none 0 ended ∧
      (s.expire timer).effort 0 ≤ s.effort (job ::ₘ 0) ∧ (s.expire timer).world = s.world := by
  have hsound := h.coherent.fits.sound
  have hleads := h.coherent.leads_expire howed hrunning htimers
  have hsame : (s.situation 0).ledger = (s.situation (job ::ₘ 0)).ledger := by
    simp only [situation, Situation.ledger, Multiset.cons_add, zero_add, owedBy_cons, howed]
  unfold expireMoments at hleads
  unfold Scheduler.expire at hleads ⊢
  cases hexpire : s.queue.expire? timer.task timer.number with
  | none =>
      simp only [hexpire] at hleads ⊢
      refine ⟨⟨h.disciplined, hleads.coherent, h.settled, ?_, h.callers⟩, ?_, trivial⟩
      · rw [hsame]
        exact h.books
      · rw [effort, effort, hsame]
  | some queue =>
      simp only [hexpire] at hleads ⊢
      obtain ⟨task, hmem, hid, hstatus, _, rfl⟩ := Queue.expire?_eq_some hexpire
      have hbusy : s.queue.isIdle = false := Queue.busy_of_mem hmem (by rw [hstatus]; rfl)
      have hstaged : Staged Inv most { s with
          queue := (s.queue.update { task with status := .pending, timer? := none }) } := by
        refine ⟨h.disciplined.congr rfl rfl rfl rfl rfl rfl, ?_, fun hm => ?_⟩
        · simp [Queue.update, h.settled.told]
        · have hidle := h.callers hm
          rw [hbusy] at hidle
          cases hidle
      have hbooks := h.books.wake hsound hmem hstatus
      have heven := Ledger.due_wake hsound hmem hstatus
      rw [← hid] at hleads
      obtain ⟨htended, heffort, hworld⟩ := of_launch _ hleads hsound hstaged hbooks
        fun _ => h.settled.queue.due.mpr hbusy
      refine ⟨htended, ?_, hworld⟩
      rw [heffort, effort]
      exact le_of_eq (congrArg (11 * · + s.load + s.alarms.length + s.awaited.toNat) heven)

-- What is done beside the queue, and leaves the jobs as they are.
theorem beside {mine' : Option String} (h : s.Tended Inv most mine hand ended)
    (s' : Scheduler ω) (hbeside : Beside s s') (hruns : s'.runs = s.runs) (hjobs : s'.jobs = s.jobs)
    (hnames : (s'.held.map Prod.fst).Nodup) (hdisciplined : s'.Disciplined Inv most mine') :
    s'.Tended Inv most mine' hand ended := by
  have hledger : (s'.situation hand).ledger = (s.situation hand).ledger := by
    simp only [situation, Situation.ledger, hbeside.queue, hbeside.works, hruns, hjobs]
  refine ⟨hdisciplined, ?_, ?_, ?_, ?_⟩
  · exact (h.coherent.leads_beside hbeside hruns hnames (.of_eq (hjobs ▸ rfl))).coherent
  · exact hbeside.settings ▸ h.settled.beside hbeside
  · rw [hledger]
    exact h.books
  · rw [hjobs, hbeside.queue]
    exact h.callers

-- An attempt that waits is a job like the others.
theorem park {id : String} {work next : Work ω}
    (h : s.Tended Inv most mine (.resume id work ::ₘ 0) ended) (s' : Scheduler ω)
    (hbeside : Beside s s')
    (hruns : s'.runs = s.runs) (hjobs : s'.jobs = .resume id next ::ₘ s.jobs)
    (hnames : (s'.held.map Prod.fst).Nodup) (hdisciplined : s'.Disciplined Inv most none) :
    s'.Tended Inv most none 0 ended ∧
      (s'.situation 0).ledger.due = (s.situation (.resume id work ::ₘ 0)).ledger.due ∧
      s'.load = 4 + 2 * next.naps + s.load := by
  have hledger : (s'.situation 0).ledger = (s.situation (.resume id work ::ₘ 0)).ledger := by
    simp only [situation, Situation.ledger, hbeside.queue, hbeside.works, hruns, hjobs,
      Multiset.cons_add, zero_add, owedBy_cons]
    rfl
  have hkinds : SameKinds (.resume id work ::ₘ 0 + s.jobs) (0 + s'.jobs) :=
    .turn (.resume id next) rfl rfl rfl (by rw [hjobs, Multiset.add_cons])
  refine ⟨⟨hdisciplined, (h.coherent.leads_beside hbeside hruns hnames hkinds).coherent,
    hbeside.settings ▸ h.settled.beside hbeside, ?_, ?_⟩, by rw [hledger], ?_⟩
  · rw [hledger]
    exact h.books
  · rw [hjobs, hbeside.queue, Multiset.mem_cons]
    rintro (hm | hm)
    · cases hm
    · exact h.callers hm
  · rw [load, hjobs, Multiset.map_cons, Multiset.sum_cons]
    rfl

-- Work with its name held goes to sleep or ends.
theorem perform {id name : String} {work : Work ω} {naps : Nat}
    (h : s.Tended Inv most (some name) (.resume id work ::ₘ 0) ended)
    (hholds : work.Holding name naps) (hkeeps : work.KeepsAt Inv id ended s.world) :
    ∃ more, (Scheduler.perform id work s).Tended Inv most none 0 more ∧
      Inv more (Scheduler.perform id work s).world ∧
      (Scheduler.perform id work s).effort 0 ≤ s.effort (.resume id work ::ₘ 0) + 3 + 2 * naps := by
  have hdisciplined : ∀ world, Disciplined Inv most (some name) { s with world := world } :=
    fun world => h.disciplined.congr rfl rfl rfl rfl rfl rfl
  obtain ⟨world, due, next, he, ⟨fewer, hfewer, hnext⟩, hlater, hinv⟩ | ⟨world, outcome, he, hinv⟩ :=
    perform_holding hholds hkeeps
  · obtain ⟨hparked, hdue, hload⟩ := h.park
      ({ s with world := world }.alarm due (.resume id next)) ⟨rfl, rfl, rfl, rfl, rfl⟩ rfl
      (jobs_alarm _ due _) h.coherent.names ((hdisciplined world).nap hnext hlater due)
    have hnaps := Work.naps_le hnext
    have hsame : ({ s with world := world }.alarm due (.resume id next)).awaited = s.awaited := rfl
    rw [he]
    refine ⟨ended, hparked, hinv, ?_⟩
    rw [effort, hdue, hload, length_alarms_alarm, hsame, effort]
    dsimp only
    omega
  · have hfirst : Beside s { s with world := world } := ⟨rfl, rfl, rfl, rfl, rfl⟩
    obtain ⟨hsecond, hruns⟩ := beside_release { s with world := world } name
    have hbeside := hfirst.trans hsecond
    have hjobs : ({ s with world := world }.release name).jobs = s.jobs :=
      jobs_release { s with world := world } h.coherent.names name
    have htended := h.beside _ hbeside hruns hjobs
      (names_release { s with world := world } h.coherent.names name) (hdisciplined world).release
    obtain ⟨hdone, heffort, hworld⟩ := htended.settle outcome
    have hreleased : ({ s with world := world }.release name).alarms = s.alarms ∧
        ({ s with world := world }.release name).awaited = s.awaited ∧
        ({ s with world := world }.release name).world = world := by
      unfold Scheduler.release
      split <;> exact ⟨rfl, rfl, rfl⟩
    have hsame : ({ s with world := world }.release name).effort (.resume id work ::ₘ 0) =
        s.effort (.resume id work ::ₘ 0) := by
      simp only [effort, load, situation, Situation.ledger, hjobs, hruns, hbeside.queue,
        hbeside.works, hreleased.1, hreleased.2.1]
    rw [he]
    refine ⟨_, hdone, ?_, ?_⟩
    · rw [hworld, hreleased.2.2]
      exact hinv
    · omega

-- An attempt begins: its work is there, and has not been called more often than the task may be
-- attempted.
private theorem exists_work {id : String} (h : s.Tended Inv most none (.attempt id ::ₘ 0) ended) :
    ∃ work, s.works.lookup id = some work ∧ (work (s.runs.count id + 1)).Orderly ∧
      (work (s.runs.count id + 1)).Keeps Inv id := by
  have hsound := h.coherent.fits.sound
  have howed : id ∈ (s.situation (.attempt id ::ₘ 0)).ledger.owed := by
    simp [situation, Situation.ledger, Job.owed]
  obtain ⟨task, hmem, rfl, _⟩ := mem_runningIds.mp (hsound.running id howed)
  have hknown : task.id ∈ s.works.map Prod.fst := hsound.known task hmem
  obtain ⟨work, hwork⟩ : ∃ work, s.works.lookup task.id = some work := by
    cases hlookup : s.works.lookup task.id with
    | some work => exact ⟨work, rfl⟩
    | none =>
        obtain ⟨entry, he, hid⟩ := List.mem_map.mp hknown
        exact absurd (List.lookup_eq_none_iff.mp hlookup entry he) (by simp [hid])
  obtain ⟨left, right, hworks, _⟩ := List.lookup_eq_some_iff.mp hwork
  have hentry : (task.id, work) ∈ s.works := hworks ▸ List.mem_append_right _ List.mem_cons_self
  have hbegun : s.runs.count task.id +
      (s.situation (.attempt task.id ::ₘ 0)).ledger.owed.count task.id = task.attempts :=
    h.books.begun task hmem
  have hcount := Multiset.count_pos.mpr howed
  have hbound := (hsound.tasks task hmem).bounded
  rw [h.books.limit task hmem] at hbound
  exact ⟨work, hwork, h.disciplined.works _ hentry _ (Nat.succ_pos _) (by omega)⟩

-- The scheduler when an attempt has begun and nothing of its work is done yet.
private def beginning (s : Scheduler ω) (id : String) : Scheduler ω :=
  { s with runs := id :: s.runs }.log (.run id (s.runs.count id + 1) s.now)

private theorem beginning_spec {id : String}
    (h : s.Tended Inv most none (.attempt id ::ₘ 0) ended) (work : Work ω) :
    (beginning s id).Tended Inv most none (.resume id work ::ₘ 0) ended ∧
      (beginning s id).effort (.resume id work ::ₘ 0) + 11 = s.effort (.attempt id ::ₘ 0) := by
  have howed : id ∈ (s.situation (.attempt id ::ₘ 0)).ledger.owed := by
    simp [situation, Situation.ledger, Job.owed]
  have hbegin : s.Leads (.attempt id ::ₘ 0) [⟨.invoke id, s.queue.tasks⟩] (beginning s id)
      (.resume id work ::ₘ 0) := h.coherent.leads_begin work
  have hplayed := hbegin.played
  rw [Ledger.play_cons, Ledger.play_nil] at hplayed
  have hsame : (beginning s id).load = s.load ∧
      (beginning s id).alarms = s.alarms ∧ (beginning s id).awaited = s.awaited := ⟨rfl, rfl, rfl⟩
  refine ⟨⟨?_, hbegin.coherent, ?_, ?_, h.callers⟩, ?_⟩
  · exact h.disciplined.congr rfl rfl rfl rfl rfl rfl
  · exact ⟨rfl, h.settled.told, h.settled.queue⟩
  · rw [← hplayed]
    exact h.books.invoke h.coherent.fits.sound howed
  · have hdue := Ledger.due_invoke howed
    have hafter := congrArg Ledger.due hplayed
    dsimp only [situation, Situation.ledger] at hdue hafter
    rw [effort, effort, hsame.1, hsame.2.1, hsame.2.2]
    dsimp only [situation, Situation.ledger]
    omega

-- What an attempt does when it begins: its work waits for the name that it wants, or goes on.
theorem attempt {id : String} (h : s.Tended Inv most none (.attempt id ::ₘ 0) ended)
    (hinv : Inv ended s.world) :
    ∃ more, (s.attempt id).Tended Inv most none 0 more ∧ Inv more (s.attempt id).world ∧
      (s.attempt id).effort 0 + 1 ≤ s.effort (.attempt id ::ₘ 0) := by
  obtain ⟨work, hwork, ⟨name, next, hnext, hholds⟩, hkeeps⟩ := h.exists_work
  rw [hnext] at hkeeps
  have hlater : next.Keeps Inv id := fun record world hi => (hkeeps record world hi).2 _ _ hi
  obtain ⟨hbegun, heffort⟩ := h.beginning_spec next
  have he : s.attempt id = Scheduler.perform id (.hold name next) (beginning s id) := by
    rw [← hnext, Scheduler.attempt, beginning]
    simp only [log, hwork]
  rw [he]
  cases hlookup : (beginning s id).held.lookup name with
  | none =>
      have hfree : name ∉ (beginning s id).held.map Prod.fst := by
        intro hm
        obtain ⟨entry, hentry, heq⟩ := List.mem_map.mp hm
        exact absurd (List.lookup_eq_none_iff.mp hlookup entry hentry) (by simp [heq])
      have hholding := hbegun.beside { beginning s id with
        held := (name, []) :: (beginning s id).held } ⟨rfl, rfl, rfl, rfl, rfl⟩ rfl (by simp [jobs])
        (List.nodup_cons.mpr ⟨hfree, hbegun.coherent.names⟩) (hbegun.disciplined.hold name)
      obtain ⟨more, hdone, hkept, hless⟩ := hholding.perform hholds (hlater ended s.world hinv)
      have hsame : ({ beginning s id with
          held := (name, []) :: (beginning s id).held } : Scheduler ω).effort
            (.resume id next ::ₘ 0) = (beginning s id).effort (.resume id next ::ₘ 0) := by
        simp [effort, load, jobs, situation, Situation.ledger]
      rw [hsame] at hless
      rw [perform_hold_free id next hlookup]
      exact ⟨more, hdone, hkept, (Nat.add_le_add_right hless 1).trans (by omega)⟩
  | some waiting =>
      have hnames := names_heldWith (beginning s id).held name (waiting ++ [.resume id next])
      obtain ⟨hparked, hdue, hload⟩ := hbegun.park { beginning s id with
        held := heldWith (beginning s id).held name (waiting ++ [.resume id next]) }
        ⟨rfl, rfl, rfl, rfl, rfl⟩ rfl
        (jobs_hold (beginning s id) hbegun.coherent.names hlookup (.resume id next))
        (hnames ▸ hbegun.coherent.names) (hbegun.disciplined.wait hlookup hholds hlater)
      have hnaps := Work.naps_le hholds
      rw [perform_hold_taken id next hlookup]
      refine ⟨ended, hparked, hinv, ?_⟩
      rw [effort] at heffort ⊢
      rw [hdue, hload]
      dsimp only
      omega

-- A timer is set that is due later, runs out at once, or is no longer wanted.
theorem setTimer {timer : Timer} (h : s.Tended Inv most none (.setTimer timer ::ₘ 0) ended) :
    (s.setTimer timer).Tended Inv most none 0 ended ∧ (s.setTimer timer).world = s.world ∧
      (s.setTimer timer).effort 0 ≤ s.effort (.setTimer timer ::ₘ 0) + 2 := by
  have hcoherent := h.coherent.leads_setTimer.coherent
  have howed : owedBy ((.setTimer timer ::ₘ 0) + s.jobs) = owedBy s.jobs := by
    rw [Multiset.cons_add, zero_add, owedBy_cons]
    exact zero_add _
  unfold Scheduler.setTimer at hcoherent ⊢
  split
  · split
    · obtain ⟨hdone, hless, hworld⟩ := h.expire rfl rfl rfl
      exact ⟨hdone, hworld, hless.trans (Nat.le_add_right _ 2)⟩
    · rename_i hset hlater
      rw [if_pos hset, if_neg hlater] at hcoherent
      have hledger : ((s.alarm (s.dueAfter timer.delay) (.expire timer)).situation 0).ledger =
          (s.situation (.setTimer timer ::ₘ 0)).ledger := by
        simp only [situation, Situation.ledger, howed, jobs_alarm, zero_add, owedBy_cons]
        simp [Job.owed, alarm]
      refine ⟨⟨h.disciplined.alarm _ trivial, hcoherent,
        ⟨rfl, h.settled.told, h.settled.queue⟩, ?_, ?_⟩, rfl, ?_⟩
      · rw [hledger]
        exact h.books
      · rw [jobs_alarm, Multiset.mem_cons]
        rintro (hm | hm)
        · cases hm
        · exact h.callers hm
      · have hsame : (s.alarm (s.dueAfter timer.delay) (.expire timer)).awaited = s.awaited := rfl
        rw [effort, hledger, load_alarm, length_alarms_alarm, hsame, effort, Job.weight]
        omega
  · rename_i hset
    rw [if_neg hset] at hcoherent
    have hledger : (s.situation 0).ledger = (s.situation (.setTimer timer ::ₘ 0)).ledger := by
      simp only [situation, Situation.ledger, howed, zero_add]
    refine ⟨⟨h.disciplined, hcoherent, h.settled, ?_, h.callers⟩, rfl, ?_⟩
    · rw [hledger]
      exact h.books
    · rw [effort, hledger]
      exact Nat.le_add_right _ 2

-- A job is taken from those that are ready, and run.
theorem job {job : Job ω} {later : List (Job ω)} (h : s.Tended Inv most none 0 ended)
    (hinv : Inv ended s.world) (hready : s.ready = job :: later) :
    ∃ more, ({ s with ready := later }.runJob job).Tended Inv most none 0 more ∧
      Inv more ({ s with ready := later }.runJob job).world ∧
      ({ s with ready := later }.runJob job).effort 0 + 1 ≤ s.effort 0 := by
  have hjobs : s.jobs = job ::ₘ jobs { s with ready := later } :=
    jobs_ready_split s (show s.ready = [] ++ job :: later from hready)
  have hledger : (({ s with ready := later } : Scheduler ω).situation (job ::ₘ 0)).ledger =
      (s.situation 0).ledger := by
    simp only [situation, Situation.ledger, hjobs, zero_add, Multiset.cons_add]
  have hload := load_take hready
  have htaken : ∀ mine, (∀ name, job.Holds name → mine = some name) →
      Tended Inv most mine (job ::ₘ 0) ended { s with ready := later } := by
    intro mine hmine
    refine ⟨h.disciplined.take hready hmine,
      (h.coherent.leads_take (show s.ready = [] ++ job :: later from hready)).coherent,
      ⟨rfl, h.settled.told, h.settled.queue⟩, ?_, fun hm => h.callers ?_⟩
    · rw [hledger]
      exact h.books
    · rw [hjobs]
      exact Multiset.mem_cons_of_mem hm
  have heffort : s.effort 0 =
      effort { s with ready := later } (job ::ₘ 0) + job.weight := by
    rw [effort, effort, hledger, hload]
    dsimp only
    omega
  rw [heffort]
  cases job with
  | attempt id => exact (htaken none fun _ hholds => hholds.elim).attempt hinv
  | resume id work =>
      have hmem : .resume id work ∈ s.jobs := by
        rw [hjobs]
        exact Multiset.mem_cons_self _ _
      obtain ⟨⟨_, _, hsome⟩, hkeeps⟩ := h.disciplined.resumes id work hmem
      obtain ⟨name, hholds⟩ := Work.holding_naps hsome
      have hmine : ∀ other, (Job.resume id work).Holds other → some name = some other := by
        rintro other ⟨_, hother⟩
        exact congrArg some (hholds.name_eq s.world hother)
      obtain ⟨more, hdone, hkept, hless⟩ := (htaken (some name) hmine).perform hholds
        (hkeeps ended s.world hinv)
      refine ⟨more, hdone, hkept, ?_⟩
      rw [Job.weight]
      exact (Nat.add_le_add_right hless 1).trans (by omega)
  | setTimer timer =>
      obtain ⟨hdone, hworld, hless⟩ := (htaken none fun _ hholds => hholds.elim).setTimer
      exact ⟨ended, hdone, hworld.symm ▸ hinv, Nat.add_le_add_right hless 1⟩
  | expire timer =>
      obtain ⟨hdone, hless, hworld⟩ := (htaken none fun _ hholds => hholds.elim).expire rfl rfl rfl
      exact ⟨ended, hdone, hworld.symm ▸ hinv, Nat.add_le_add_right hless 1⟩
  | caller =>
      have htended := htaken none fun _ hholds => hholds.elim
      have hcoherent := htended.coherent.leads_job.coherent
      have hsame : (({ s with ready := later } : Scheduler ω).situation 0).ledger =
          (({ s with ready := later } : Scheduler ω).situation (.caller ::ₘ 0)).ledger := by
        simp only [situation, Situation.ledger, Multiset.cons_add, zero_add, owedBy_cons]
        simp [Job.owed]
      refine ⟨ended, ⟨htended.disciplined, hcoherent, htended.settled, ?_, htended.callers⟩, hinv, ?_⟩
      · rw [runJob, hsame]
        exact htended.books
      · rw [runJob, effort, hsame]
        exact le_rfl

end Tended

end Scheduler

end LivePreview.Retry
