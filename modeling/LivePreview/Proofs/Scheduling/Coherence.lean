import LivePreview.Proofs.Scheduling.Course
import LivePreview.Proofs.Scheduling.Jobs

namespace LivePreview.Retry

variable {ω : Type}

-- A queue with the identifiers of all tasks ever made, the tasks whose work was called, and all
-- jobs, those that are being handed over included.
structure Situation (ω : Type) where
  queue : Queue
  known : List String
  begun : List String
  jobs : Multiset (Job ω)

namespace Situation

def ledger (x : Situation ω) : Ledger := ⟨x.queue.tasks, owedBy x.jobs, x.known, x.begun⟩

-- The jobs, the counters and the table of tasks tell the same story.
structure Coherent (settings : Settings) (x : Situation ω) : Prop where
  sound : x.ledger.Sound
  running : runningBy x.jobs = (runningIds x.queue.tasks : Multiset String)
  active : x.queue.active = (runningIds x.queue.tasks).length
  within : x.queue.active ≤ settings.concurrency
  created : x.queue.created = x.known.length
  numbers : ∀ timer ∈ timersOf x.jobs, timer.number < x.queue.timers
  distinct : ((timersOf x.jobs).map (·.number)).Nodup
  delays : ∀ timer ∈ timersOf x.jobs, timer.delay ≤ settings.maxDelay
  armed : ∀ task ∈ x.queue.tasks, ∀ number, task.timer? = some number →
    ∃ timer ∈ timersOf x.jobs, timer.task = task.id ∧ timer.number = number

end Situation

-- The tasks in the notes that observers have not been told yet.
def Note.told? : Note → Option Task
  | .status task => some task
  | .drained => none

def Queue.untold (queue : Queue) : List Task := queue.notes.filterMap Note.told?

-- What a row of writes makes of a situation: each write is lawful, the notes tell of its changes,
-- and all goes on to fit together.
structure Situation.Leads (settings : Settings) (x : Situation ω) (moments : List Moment)
    (y : Situation ω) : Prop where
  lawful : x.ledger.Lawful settings moments
  played : x.ledger.play moments = y.ledger
  untold : y.queue.untold = x.queue.untold ++ changesAlong x.queue.tasks moments
  coherent : y.Coherent settings

-- After an attempt a new timer comes with the queue if the task has to wait, and only then.
theorem Queue.finish_eq (settings : Settings) (sample : Binary64) {queue : Queue} {id : String}
    {task : Task} (hfind : queue.find? id = some task) (htimer : task.timer? = none)
    (outcome : Outcome) :
    let after := Queue.attempted settings queue.timers task outcome
    let left : Queue := { queue with active := queue.active - 1 }
    ∃ timer? : Option Timer, queue.finish settings sample id outcome =
        ({ left.update after with timers := queue.timers + timer?.toList.length }, timer?) ∧
      (∀ timer ∈ timer?, timer.task = id ∧ timer.number = queue.timers ∧
        timer.delay ≤ settings.maxDelay) ∧
      after.timer? = timer?.map (·.number) := by
  intro after left
  have hleft : left.find? id = some task := hfind
  simp only [Queue.finish, left] at hleft ⊢
  rcases attempted_cases settings queue.timers task outcome with
    ⟨_, he⟩ | ⟨_, _, he⟩ | ⟨_, _, he⟩
  · exact ⟨none, by simp [hleft, after, he, update], by simp, by simp only [after, he, htimer]; rfl⟩
  · exact ⟨none, by simp [hleft, after, he, update], by simp, by simp only [after, he, htimer]; rfl⟩
  · exact ⟨some ⟨id, queue.timers, spreadDelay task.delay settings.jitter settings.maxDelay sample⟩,
      by simp [hleft, after, he], by simp [spreadDelay], by simp only [after, he]; rfl⟩

namespace Situation

variable {settings : Settings} {x y z : Situation ω} {moments later : List Moment}

theorem Leads.trans (first : x.Leads settings moments y) (second : y.Leads settings later z) :
    x.Leads settings (moments ++ later) z := by
  constructor
  · exact Ledger.lawful_append.mpr ⟨first.lawful, first.played ▸ second.lawful⟩
  · rw [Ledger.play_append, first.played, second.played]
  · have htable : y.queue.tasks = (x.ledger.play moments).table := by rw [first.played]; rfl
    have hsplit := changesAlong_append x.ledger moments later
    rw [← htable] at hsplit
    rw [second.untold, first.untold, List.append_assoc]
    exact congrArg (x.queue.untold ++ ·) hsplit.symm
  · exact second.coherent

theorem Leads.refl (h : x.Coherent settings) : x.Leads settings [] x :=
  ⟨trivial, rfl, by simp [changesAlong], h⟩

-- What does not bear on the table, the counters, the notices and the kinds of the jobs may change.
theorem Coherent.leads_nil (h : x.Coherent settings) (htasks : y.queue.tasks = x.queue.tasks)
    (hactive : y.queue.active = x.queue.active) (hcreated : y.queue.created = x.queue.created)
    (hnumber : y.queue.timers = x.queue.timers) (huntold : y.queue.untold = x.queue.untold)
    (hknown : y.known = x.known) (hbegun : y.begun = x.begun) (hkinds : SameKinds x.jobs y.jobs) :
    x.Leads settings [] y := by
  have hledger : y.ledger = x.ledger := by simp only [ledger, htasks, hkinds.owed, hknown, hbegun]
  refine ⟨trivial, hledger.symm, by simp [changesAlong, huntold], ?_⟩
  constructor
  · rw [hledger]
    exact h.sound
  · rw [hkinds.running, htasks]
    exact h.running
  · rw [hactive, htasks]
    exact h.active
  · rw [hactive]
    exact h.within
  · rw [hcreated, hknown]
    exact h.created
  · rw [hkinds.timers, hnumber]
    exact h.numbers
  · rw [hkinds.timers]
    exact h.distinct
  · rw [hkinds.timers]
    exact h.delays
  · rw [hkinds.timers, htasks]
    exact h.armed

theorem Coherent.ids (h : x.Coherent settings) : (x.queue.tasks.map (·.id)).Nodup := h.sound.ids

-- A write of one task, with what it does to the jobs and the counters.
private theorem leads_turn (h : x.Coherent settings) {cause : Cause} {before after : Task}
    (hmem : before ∈ x.queue.tasks) (hturn : Turn settings cause before after)
    (hadmits : x.ledger.Admits before cause)
    (htasks : y.queue.tasks = replaceTask x.queue.tasks after)
    (hnotes : y.queue.notes = x.queue.notes ++ [.status after])
    (hcreated : y.queue.created = x.queue.created) (hknown : y.known = x.known)
    (hbegun : y.begun = x.begun) (howed : owedBy y.jobs = cause.owedAfter (owedBy x.jobs))
    (hrunning : runningBy y.jobs = (runningIds y.queue.tasks : Multiset String))
    (hactive : y.queue.active = (runningIds y.queue.tasks).length)
    (hwithin : y.queue.active ≤ settings.concurrency)
    (hnumbers : ∀ timer ∈ timersOf y.jobs, timer.number < y.queue.timers)
    (hdistinct : ((timersOf y.jobs).map (·.number)).Nodup)
    (hdelays : ∀ timer ∈ timersOf y.jobs, timer.delay ≤ settings.maxDelay)
    (hkept : timersOf x.jobs ≤ timersOf y.jobs)
    (harmed : ∀ number, after.timer? = some number →
      ∃ timer ∈ timersOf y.jobs, timer.task = after.id ∧ timer.number = number) :
    x.Leads settings [⟨cause, y.queue.tasks⟩] y := by
  have hmove : x.ledger.Move settings ⟨cause, y.queue.tasks⟩ := by
    rw [htasks]
    exact .turn cause before after hmem hturn hadmits
  have hsame : cause.knownAfter x.known = x.known := by cases hturn <;> rfl
  have hinvoked : cause.invoked = [] := by cases hturn <;> rfl
  have hledger : x.ledger.after ⟨cause, y.queue.tasks⟩ = y.ledger := by
    simp only [Ledger.after, ledger, howed, hknown, hbegun, hsame, hinvoked, List.nil_append]
  refine ⟨⟨hmove, trivial⟩, hledger, ?_, ?_⟩
  · simp only [changesAlong, List.append_nil, Queue.untold, hnotes, List.filterMap_append]
    rw [htasks, changed_replaceTask h.ids hmem hturn.id_eq hturn.status_ne]
    rfl
  · refine ⟨hledger ▸ hmove.sound h.sound, hrunning, hactive, hwithin,
      by rw [hcreated, hknown]; exact h.created, hnumbers, hdistinct, hdelays, ?_⟩
    intro task htask number hnumber
    rw [htasks] at htask
    rcases (mem_replaceTask h.ids hmem hturn.id_eq task).mp htask with rfl | ⟨hm, _⟩
    · exact harmed number hnumber
    · obtain ⟨timer, ht, hrest⟩ := h.armed task hm number hnumber
      exact ⟨timer, Multiset.mem_of_le hkept ht, hrest⟩

-- A write that neither begins nor ends an attempt.
theorem Coherent.leads_update (h : x.Coherent settings) {cause : Cause} {before after : Task}
    (hmem : before ∈ x.queue.tasks) (hturn : Turn settings cause before after)
    (hbefore : before.status ≠ .inProgress) (hafter : after.status ≠ .inProgress)
    (htimer : after.timer? = none) :
    x.Leads settings [⟨cause, (x.queue.update after).tasks⟩]
      { x with queue := x.queue.update after } := by
  have hrunning := runningIds_replaceTask h.ids hmem hturn.id_eq
  rw [if_neg hbefore, if_neg hafter, add_zero, add_zero] at hrunning
  have hlength := congrArg Multiset.card hrunning
  simp only [Multiset.coe_card] at hlength
  have howed : cause.owedAfter (owedBy x.jobs) = owedBy x.jobs := by
    cases hturn with
    | launch => exact absurd rfl hafter
    | _ => rfl
  have hadmits : x.ledger.Admits before cause := by
    cases hturn with
    | launch => exact absurd rfl hafter
    | finish _ hstatus => exact absurd hstatus hbefore
    | _ => trivial
  refine leads_turn (y := { x with queue := x.queue.update after }) h hmem hturn hadmits rfl rfl rfl
    rfl rfl howed.symm (h.running.trans hrunning.symm) (h.active.trans hlength.symm) h.within
    h.numbers h.distinct h.delays le_rfl ?_
  simp [htimer]

theorem Coherent.leads_start (h : x.Coherent settings) {task : Task} (hmem : task ∈ x.queue.tasks)
    (hstatus : task.status = .pending)
    (hfirst : ∀ other ∈ x.queue.tasks, other.status = .pending → other.precedes task = false)
    (hroom : x.queue.active < settings.concurrency) :
    x.Leads settings [⟨.launch task.id, (x.queue.start task).tasks⟩]
      { x with queue := x.queue.start task, jobs := .attempt task.id ::ₘ x.jobs } := by
  have hturn : Turn settings (.launch task.id) task (Queue.started task) := .launch task hstatus
  have hrunning := runningIds_replaceTask h.ids hmem hturn.id_eq
  have hstarted : (Queue.started task).status = .inProgress := rfl
  rw [if_neg (by rw [hstatus]; decide), if_pos hstarted, add_zero, add_comm,
    Multiset.singleton_add] at hrunning
  have hlength := congrArg Multiset.card hrunning
  simp only [Multiset.coe_card, Multiset.card_cons] at hlength
  have htimer := (h.sound.tasks task hmem).timer_eq_none (by rw [hstatus]; decide)
  refine leads_turn
    (y := { x with queue := x.queue.start task, jobs := .attempt task.id ::ₘ x.jobs }) h hmem hturn
    hfirst rfl rfl rfl rfl rfl ?_ ?_ ?_ hroom ?_ ?_ ?_ ?_ ?_
  · rw [owedBy_cons]
    exact Multiset.singleton_add _ _
  · rw [runningBy_cons, h.running]
    exact (Multiset.singleton_add _ _).trans hrunning.symm
  · exact (congrArg (· + 1) h.active).trans hlength.symm
  · intro timer ht
    exact h.numbers timer (by simpa [Job.timers] using ht)
  · rw [timersOf_cons]
    simpa [Job.timers] using h.distinct
  · intro timer ht
    exact h.delays timer (by simpa [Job.timers] using ht)
  · rw [timersOf_cons]
    simp [Job.timers]
  · simp [Queue.started, htimer]

-- The task of an attempt that has begun is there and under way, and no other attempt at it is.
theorem Coherent.exists_running {jobs : Multiset (Job ω)} {id : String} {work : Work ω}
    (h : x.Coherent settings) (hjobs : x.jobs = .resume id work ::ₘ jobs) :
    ∃ task ∈ x.queue.tasks, task.id = id ∧ task.status = .inProgress ∧ id ∉ owedBy x.jobs := by
  obtain ⟨howed, hrun, _⟩ := kinds_resume jobs id work
  rw [← hjobs] at howed hrun
  have hm : id ∈ (runningIds x.queue.tasks : Multiset String) := by
    rw [← h.running, hrun]
    exact Multiset.mem_add.mpr (.inl (Multiset.mem_singleton_self id))
  obtain ⟨task, hmem, hid, hstatus⟩ := mem_runningIds.mp (Multiset.mem_coe.mp hm)
  refine ⟨task, hmem, hid, hstatus, ?_⟩
  intro ho
  have hnodup := Multiset.coe_nodup.mpr (nodup_runningIds h.ids)
  rw [← h.running, hrun, Multiset.singleton_add, Multiset.nodup_cons] at hnodup
  exact hnodup.1 (Multiset.mem_of_le (owedBy_le_runningBy jobs) (howed ▸ ho))

-- When an attempt that had begun ends, the others are under way as before.
private theorem Coherent.running_finish {jobs : Multiset (Job ω)} {work : Work ω}
    {task after : Task} (h : x.Coherent settings) (hjobs : x.jobs = .resume task.id work ::ₘ jobs)
    (hmem : task ∈ x.queue.tasks) (hstatus : task.status = .inProgress) (hid : after.id = task.id)
    (hended : after.status ≠ .inProgress) :
    runningBy jobs = (runningIds (replaceTask x.queue.tasks after) : Multiset String) ∧
      x.queue.active - 1 = (runningIds (replaceTask x.queue.tasks after)).length := by
  obtain ⟨_, hrun, _⟩ := kinds_resume jobs task.id work
  have hrunning := runningIds_replaceTask h.ids hmem hid
  rw [← hjobs] at hrun
  rw [if_pos hstatus, if_neg hended, add_zero, ← h.running, hrun, add_comm, add_right_inj]
    at hrunning
  refine ⟨hrunning.symm, ?_⟩
  rw [h.active, ← Multiset.coe_card, ← h.running, hrun, ← Multiset.coe_card, hrunning,
    Multiset.card_add, Multiset.card_singleton]
  omega

-- The end of an attempt that had begun: its job is gone, and a timer may have to be set.
theorem Coherent.leads_finish {jobs : Multiset (Job ω)} {id : String} {work : Work ω}
    (h : x.Coherent settings) (hjobs : x.jobs = .resume id work ::ₘ jobs) (sample : Binary64)
    (outcome : Outcome) :
    x.Leads settings
      [⟨.finish id, (x.queue.finish settings sample id outcome).1.tasks⟩]
      { x with
        queue := (x.queue.finish settings sample id outcome).1
        jobs := timerJobs (x.queue.finish settings sample id outcome).2 + jobs } := by
  obtain ⟨task, hmem, rfl, hstatus, hsingle⟩ := h.exists_running hjobs
  have hturn : Turn settings (.finish task.id) task
      (Queue.attempted settings x.queue.timers task outcome) :=
    .finish task hstatus x.queue.timers outcome
  have hended : (Queue.attempted settings x.queue.timers task outcome).status ≠ .inProgress := by
    have hne := hturn.status_ne
    rwa [hstatus] at hne
  obtain ⟨hrunning, hactive⟩ := h.running_finish hjobs hmem hstatus hturn.id_eq hended
  have htimer := (h.sound.tasks task hmem).timer_eq_none (by rw [hstatus]; decide)
  obtain ⟨timer?, he, hnew, hset⟩ := Queue.finish_eq settings sample
    (Queue.find?_eq_some_of_mem h.ids hmem) htimer outcome
  obtain ⟨howed, _, htimers⟩ := kinds_resume jobs task.id work
  rw [← hjobs] at howed htimers
  obtain ⟨howed', hrunning', htimers'⟩ := kinds_timerJobs jobs timer?
  rw [← htimers] at htimers'
  rw [he]
  refine leads_turn (y := ⟨_, _, _, _⟩) h hmem hturn hsingle rfl rfl rfl rfl rfl ?_ ?_ hactive
    ((Nat.sub_le _ 1).trans h.within) ?_ ?_ ?_ ?_ ?_ <;> dsimp only
  · exact howed'.trans howed.symm
  · exact hrunning'.trans hrunning
  · -- the number of the new timer is higher than those of all others
    intro timer ht
    rw [htimers'] at ht
    rcases Multiset.mem_add.mp ht with ht | ht
    · obtain rfl : timer? = some timer := by simpa using ht
      rw [(hnew timer rfl).2.1]
      exact Nat.lt_succ_self _
    · exact Nat.lt_add_right _ (h.numbers timer ht)
  · rw [htimers']
    cases timer? with
    | none => simpa using h.distinct
    | some timer =>
        rw [Option.toList_some, Multiset.coe_singleton, Multiset.singleton_add, Multiset.map_cons,
          Multiset.nodup_cons]
        refine ⟨?_, h.distinct⟩
        intro hm
        obtain ⟨other, ho, hn⟩ := Multiset.mem_map.mp hm
        exact absurd (hn.trans (hnew timer rfl).2.1) (h.numbers other ho).ne
  · intro timer ht
    rw [htimers'] at ht
    rcases Multiset.mem_add.mp ht with ht | ht
    · obtain rfl : timer? = some timer := by simpa using ht
      exact (hnew timer rfl).2.2
    · exact h.delays timer ht
  · rw [htimers']
    exact Multiset.le_add_left _ _
  · intro number hnumber
    rw [hset, Option.map_eq_some_iff] at hnumber
    obtain ⟨timer, rfl, hn⟩ := hnumber
    rw [htimers']
    refine ⟨timer, Multiset.mem_add.mpr (.inl (by simp)), ?_, hn⟩
    rw [(hnew timer rfl).1, hturn.id_eq]

-- A write that concerns no single task of the table, and leaves those under way where they are.
private theorem Coherent.leads_table (h : x.Coherent settings) {cause : Cause}
    (hmove : x.ledger.Move settings ⟨cause, y.queue.tasks⟩)
    (howed : owedBy y.jobs = cause.owedAfter (owedBy x.jobs))
    (hknown : y.known = cause.knownAfter x.known) (hbegun : y.begun = cause.invoked ++ x.begun)
    (huntold : y.queue.untold = x.queue.untold ++ changed x.queue.tasks y.queue.tasks)
    (hrunning : runningBy y.jobs = runningBy x.jobs) (htimers : timersOf y.jobs = timersOf x.jobs)
    (hids : (runningIds y.queue.tasks).Perm (runningIds x.queue.tasks))
    (hactive : y.queue.active = x.queue.active) (hcreated : y.queue.created = y.known.length)
    (hnumber : y.queue.timers = x.queue.timers)
    (hold : ∀ task ∈ y.queue.tasks, task.timer? ≠ none → task ∈ x.queue.tasks) :
    x.Leads settings [⟨cause, y.queue.tasks⟩] y := by
  have hledger : x.ledger.after ⟨cause, y.queue.tasks⟩ = y.ledger := by
    simp only [Ledger.after, ledger, howed, hknown, hbegun]
  refine ⟨⟨hmove, trivial⟩, hledger, by simpa [changesAlong] using huntold, ?_⟩
  refine ⟨hledger ▸ hmove.sound h.sound, ?_, ?_, ?_, hcreated, ?_, ?_, ?_, ?_⟩
  · rw [hrunning, h.running]
    exact (Multiset.coe_eq_coe.mpr hids).symm
  · rw [hactive, h.active, hids.length_eq]
  · rw [hactive]
    exact h.within
  · rw [htimers, hnumber]
    exact h.numbers
  · rw [htimers]
    exact h.distinct
  · rw [htimers]
    exact h.delays
  · intro task htask number hnumber
    rw [htimers]
    have hset : task.timer? ≠ none := by
      rw [hnumber]
      exact Option.some_ne_none number
    exact h.armed task (hold task htask hset) number hnumber

theorem Coherent.leads_add (h : x.Coherent settings) (request : TaskRequest)
    (hfresh : request.id ∉ x.known) :
    x.Leads settings
      [⟨.enqueue request.id, (x.queue.add (x.queue.newTask settings request)).tasks⟩]
      { x with
        queue := x.queue.add (x.queue.newTask settings request)
        known := request.id :: x.known } := by
  have hne : ∀ other ∈ x.queue.tasks, other.id ≠ request.id := by
    intro other ho he
    exact hfresh (he ▸ h.sound.known other ho)
  have htasks : (x.queue.add (x.queue.newTask settings request)).tasks =
      x.queue.tasks ++ [x.queue.newTask settings request] := by
    have hkeep : x.queue.tasks.filter (·.id != request.id) = x.queue.tasks :=
      List.filter_eq_self.mpr fun other ho => bne_iff_ne.mpr (hne other ho)
    exact congrArg (· ++ [x.queue.newTask settings request]) hkeep
  have hsound : (x.queue.newTask settings request).Sound := by
    constructor <;> simp [Queue.newTask]
  have hmove : x.ledger.Move settings
      ⟨.enqueue request.id, (x.queue.add (x.queue.newTask settings request)).tasks⟩ := by
    rw [htasks]
    exact .enqueue (x.queue.newTask settings request) rfl hsound hfresh h.created
  have hnotes : (x.queue.add (x.queue.newTask settings request)).untold =
      x.queue.untold ++ [x.queue.newTask settings request] := by
    simp [Queue.untold, Queue.add, Note.told?]
  refine h.leads_table (y := { x with
    queue := x.queue.add (x.queue.newTask settings request)
    known := request.id :: x.known }) hmove rfl rfl rfl ?_ rfl rfl ?_ rfl ?_ rfl ?_
  · rw [hnotes, htasks, changed_append_new hne]
  · rw [htasks]
    simp [runningIds, Queue.newTask]
  · exact congrArg (· + 1) h.created
  · rw [htasks]
    intro task htask htimer
    rcases List.mem_append.mp htask with htask | htask
    · exact htask
    · exact absurd (by rw [List.mem_singleton.mp htask]; rfl) htimer

theorem Coherent.leads_prune (h : x.Coherent settings) :
    x.Leads settings [⟨.prune, x.queue.prune.1.tasks⟩] { x with queue := x.queue.prune.1 } := by
  have hsub : x.queue.prune.1.tasks ⊆ x.queue.tasks := List.filter_sublist.subset
  refine h.leads_table (y := { x with queue := x.queue.prune.1 }) .prune rfl rfl rfl ?_ rfl rfl ?_
    rfl h.created rfl fun task htask _ => hsub htask
  · rw [changed_of_subset hsub, List.append_nil]
    rfl
  · simp only [runningIds, Queue.prune, List.filter_filter]
    have hsame : ∀ task : Task, (task.status == .inProgress && !task.status.isTerminal) =
        (task.status == .inProgress) := by
      intro task
      cases task.status <;> rfl
    simp only [hsame]
    exact .rfl

theorem Coherent.leads_reorder (h : x.Coherent settings) {tasks : List Task}
    (hperm : tasks.Perm x.queue.tasks) :
    x.Leads settings [⟨.reorder, tasks⟩]
      { x with queue := { x.queue with tasks := tasks } } := by
  refine h.leads_table (y := { x with queue := { x.queue with tasks := tasks } })
    (.reorder tasks hperm) rfl rfl rfl ?_ rfl rfl ((hperm.filter _).map _) rfl h.created rfl
    fun task htask _ => hperm.mem_iff.mp htask
  rw [changed_of_subset hperm.subset, List.append_nil]
  rfl

-- A launched attempt begins: from then on it goes on with its work.
theorem Coherent.leads_invoke {jobs : Multiset (Job ω)} {id : String} (h : x.Coherent settings)
    (hjobs : x.jobs = .attempt id ::ₘ jobs) (work : Work ω) :
    x.Leads settings [⟨.invoke id, x.queue.tasks⟩]
      { x with begun := id :: x.begun, jobs := .resume id work ::ₘ jobs } := by
  have howed : owedBy x.jobs = {id} + owedBy jobs := by rw [hjobs, owedBy_cons]; rfl
  have hmem : id ∈ x.ledger.owed := by
    simp only [ledger, howed]
    exact Multiset.mem_add.mpr (.inl (Multiset.mem_singleton_self id))
  refine h.leads_table (y := { x with begun := id :: x.begun, jobs := .resume id work ::ₘ jobs })
    (.invoke id hmem) ?_ rfl rfl ?_ ?_ ?_ .rfl rfl h.created rfl fun task htask _ => htask
  · rw [howed, owedBy_cons, Multiset.singleton_add]
    simp [Job.owed, Cause.owedAfter]
  · rw [changed_of_subset (List.Subset.refl _), List.append_nil]
  · rw [hjobs, runningBy_cons, runningBy_cons]
    rfl
  · rw [hjobs, timersOf_cons, timersOf_cons]
    rfl

-- The job of a timer that no task waits for may go.
theorem Coherent.leads_drop {jobs : Multiset (Job ω)} {job : Job ω} {timer : Timer}
    (h : x.Coherent settings) (hjobs : x.jobs = job ::ₘ jobs) (howed : job.owed = 0)
    (hrunning : job.running = 0) (htimers : job.timers = {timer})
    (hnot : x.queue.isSet timer.task timer.number = false) :
    x.Leads settings [] { x with jobs := jobs } := by
  have hledger : ledger { x with jobs := jobs } = x.ledger := by
    simp only [ledger, hjobs, owedBy_cons, howed, zero_add]
  have hall : timersOf x.jobs = timer ::ₘ timersOf jobs := by
    rw [hjobs, timersOf_cons, htimers, Multiset.singleton_add]
  refine ⟨trivial, hledger.symm, by simp [changesAlong], ?_⟩
  refine ⟨hledger ▸ h.sound, ?_, h.active, h.within, h.created, ?_, ?_, ?_, ?_⟩
  · have := h.running
    rwa [hjobs, runningBy_cons, hrunning, zero_add] at this
  · exact fun other ho => h.numbers other (hall ▸ Multiset.mem_cons_of_mem ho)
  · have := h.distinct
    rw [hall, Multiset.map_cons, Multiset.nodup_cons] at this
    exact this.2
  · exact fun other ho => h.delays other (hall ▸ Multiset.mem_cons_of_mem ho)
  · intro task htask number hnumber
    obtain ⟨other, ho, hid, hn⟩ := h.armed task htask number hnumber
    rw [hall] at ho
    rcases Multiset.mem_cons.mp ho with rfl | ho
    · have hfind := Queue.find?_eq_some_of_mem h.ids htask
      rw [Queue.isSet, hid, hfind, hn, Option.any_some, hnumber, beq_self_eq_true] at hnot
      cases hnot
    · exact ⟨other, ho, hid, hn⟩

end Situation

end LivePreview.Retry
