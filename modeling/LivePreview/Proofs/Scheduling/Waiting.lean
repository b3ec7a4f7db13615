import LivePreview.Proofs.Scheduling.Completion

namespace LivePreview.Retry

namespace Scheduler

variable {ω : Type} {s : Scheduler ω} {Inv : List (String × Outcome) → ω → Prop} {most : Nat}
  {ended : List (String × Outcome)}

theorem jobs_advanceTo (s : Scheduler ω) (time : Nat) : (s.advanceTo time).jobs = s.jobs := by
  have hsplit : ((s.alarms.takeWhile (·.1 ≤ time)).map Prod.snd : Multiset (Job ω)) +
      ((s.alarms.dropWhile (·.1 ≤ time)).map Prod.snd : Multiset (Job ω)) =
      (s.alarms.map Prod.snd : Multiset (Job ω)) := by
    rw [Multiset.coe_add, ← List.map_append, List.takeWhile_append_dropWhile]
  simp only [jobs, advanceTo, ← Multiset.coe_add, ← hsplit]
  ac_rfl

namespace Tended

-- Time goes on to the first alarm.
theorem advanceTo (h : s.Tended Inv most none 0 ended) {due : Nat} {job : Job ω}
    {later : List (Nat × Job ω)} (halarms : s.alarms = (due, job) :: later) :
    (s.advanceTo due).Tended Inv most none 0 ended ∧
      (s.advanceTo due).effort 0 + 1 ≤ s.effort 0 := by
  have hjobs := jobs_advanceTo s due
  refine ⟨h.beside _ ⟨rfl, rfl, rfl, rfl, rfl⟩ rfl hjobs h.coherent.names
    (h.disciplined.advanceTo due), ?_⟩
  have hledger : ((s.advanceTo due).situation 0).ledger = (s.situation 0).ledger := by
    simp only [situation, Situation.ledger, hjobs]
    rfl
  have hload : (s.advanceTo due).load = s.load := by rw [load, hjobs, load]
  have hlength : (s.advanceTo due).alarms.length < s.alarms.length := by
    have hdrop : (s.advanceTo due).alarms = later.dropWhile (·.1 ≤ due) := by
      simp [Scheduler.advanceTo, halarms]
    rw [hdrop, halarms, List.length_cons]
    exact Nat.lt_succ_of_le (List.dropWhile_suffix _).length_le
  have hawaited : (s.advanceTo due).awaited = s.awaited := rfl
  rw [effort, hledger, hload, hawaited, effort]
  omega

-- When nothing is ready and nothing waits for its time, nothing is left to be done: nobody waits for
-- a name, so no attempt is under way and no timer is set, and what is pending would be launched.
theorem isIdle_of_rest (h : s.Tended Inv most none 0 ended) (hready : s.ready = [])
    (halarms : s.alarms = []) : s.queue.isIdle = true := by
  have hnone : (s.situation 0).jobs = 0 := by
    rw [situation, h.disciplined.jobs_eq_zero hready halarms, add_zero]
  have hrunning : runningIds s.queue.tasks = [] := by
    have hrun := h.coherent.fits.running
    rw [hnone] at hrun
    exact (Multiset.coe_eq_zero _).mp hrun.symm
  have hactive : s.queue.active = 0 := by
    have hcount := h.coherent.fits.active
    dsimp only [situation] at hcount
    rw [hcount, hrunning, List.length_nil]
  rw [← Bool.not_eq_false, Queue.isIdle_eq_false_iff]
  rintro (hne | ⟨task, hmem, hlive⟩)
  · exact hne hactive
  · cases hstatus : task.status with
    | pending =>
        have hroom : s.queue.active < s.settings.concurrency := hactive ▸ h.disciplined.room
        exact h.settled.queue.filled hroom task hmem hstatus
    | inProgress =>
        have hin := mem_runningIds.mpr ⟨task, hmem, rfl, hstatus⟩
        rw [hrunning] at hin
        cases hin
    | waiting =>
        have htimed := (h.coherent.fits.sound.tasks task hmem).timed.mpr hstatus
        obtain ⟨number, hnumber⟩ := Option.isSome_iff_exists.mp htimed
        obtain ⟨timer, htimer, _⟩ := h.coherent.fits.armed task hmem number hnumber
        rw [hnone] at htimer
        cases htimer
    | _ => simp [hstatus, Status.isLive] at hlive

-- With as many steps as are left the scheduler is run until its queue is idle.
theorem run (h : s.Tended Inv most none 0 ended) (hinv : Inv ended s.world) (fuel : Nat)
    (hfuel : s.effort 0 ≤ fuel) :
    ∃ more, (s.run fuel).Tended Inv most none 0 more ∧ Inv more (s.run fuel).world ∧
      (s.run fuel).queue.isIdle = true := by
  induction fuel generalizing s ended with
  | zero =>
      have hready : s.ready = [] := by
        cases hready : s.ready with
        | nil => rfl
        | cons job later =>
            obtain ⟨_, _, _, hless⟩ := h.job hinv hready
            omega
      have halarms : s.alarms = [] := by
        rw [effort] at hfuel
        exact List.eq_nil_of_length_eq_zero (by omega)
      exact ⟨ended, h, hinv, h.isIdle_of_rest hready halarms⟩
  | succ fuel ih =>
      unfold Scheduler.run
      split
      · rename_i later hready
        obtain ⟨more, hdone, hkept, _⟩ := h.job hinv hready
        refine ⟨more, hdone, hkept, h.callers (mem_jobs.mpr (.inl ?_))⟩
        rw [hready]
        exact List.mem_cons_self
      · rename_i job later _ hready
        obtain ⟨more, hdone, hkept, hless⟩ := h.job hinv hready
        exact ih hdone hkept (by omega)
      · rename_i hready
        split
        · rename_i halarms
          exact ⟨ended, h, hinv, h.isIdle_of_rest hready halarms⟩
        · rename_i due job later halarms
          obtain ⟨hdone, hless⟩ := h.advanceTo halarms
          exact ih hdone hinv (by omega)

end Tended

-- A scheduler to which tasks were given and which was not run yet.
structure Untouched (s : Scheduler ω) : Prop where
  alarms : s.alarms = []
  held : s.held = []
  awaited : s.awaited = false
  ready : ∀ job ∈ s.ready, ∃ id, job = .attempt id

theorem untouched_start (settings : Settings) (world : ω) :
    (start settings world []).Untouched :=
  ⟨rfl, rfl, rfl, fun _ hm => absurd hm List.not_mem_nil⟩

namespace Untouched

theorem jobs (h : s.Untouched) : ∀ job ∈ s.jobs, ∃ id, job = .attempt id := by
  intro job hm
  rcases mem_jobs.mp hm with hm | hm | ⟨entry, he, _⟩
  · exact h.ready job hm
  · rw [h.alarms] at hm
    cases hm
  · rw [h.held] at he
    cases he

-- The number of steps that are made at most is enough for all attempts.
theorem effort_le_horizon (h : s.Untouched) (hsound : (s.situation 0).ledger.Sound)
    (hquiet : s.reactions = []) : effort { s with awaited := true } 0 ≤ s.horizon := by
  have hload : s.load = 0 := by
    refine Multiset.sum_eq_zero fun weight hm => ?_
    obtain ⟨job, hjob, rfl⟩ := Multiset.mem_map.mp hm
    obtain ⟨id, rfl⟩ := h.jobs job hjob
    rfl
  have hdue := hsound.due_le
  have hattempts : s.queue.tasks.foldr (·.maxAttempts + ·) 1 =
      (s.queue.tasks.map (·.maxAttempts)).sum + 1 := by
    induction s.queue.tasks with
    | nil => rfl
    | cons task tasks ih =>
        rw [List.foldr_cons, ih, List.map_cons, List.sum_cons]
        omega
  have heffort : effort { s with awaited := true } 0 =
      11 * (s.situation 0).ledger.due + s.load + s.alarms.length + 1 := rfl
  rw [heffort, hload, h.alarms, horizon, hattempts, hquiet]
  dsimp only [situation, Situation.ledger, Reaction.budget, List.length_nil] at hdue ⊢
  omega

-- One more task is all that there is besides.
theorem enqueue (h : s.Untouched) (request : TaskRequest) (work : Nat → Work ω)
    (hquiet : s.reactions = []) (htold : s.queue.notes = []) :
    (s.enqueue request work).1.Untouched ∧
      (s.enqueue request work).1.settings = s.settings ∧
      (s.enqueue request work).1.works = (request.id, work) :: s.works ∧
      (s.enqueue request work).1.world = s.world := by
  obtain ⟨callers, ids, told, hhush, _, he⟩ := hushed_launchAfter
    (s := { s with
      queue := s.queue.add (s.queue.newTask s.settings request)
      works := (request.id, work) :: s.works }) hquiet (by simp [Queue.add, htold])
  have hawaited := hhush.awaited
  rw [h.awaited, Bool.toNat_false] at hawaited
  have hnone : callers = [] := List.eq_nil_of_length_eq_zero (by omega)
  have hafter : (s.enqueue request work).1 = { told with ready := told.ready ++ ids.map .attempt } :=
    he
  rw [hafter]
  refine ⟨⟨hhush.alarms.trans h.alarms, hhush.held.trans h.held, ?_, fun job hm => ?_⟩,
    hhush.settings, hhush.works, hhush.world⟩
  · cases htold' : told.awaited with
    | false => rfl
    | true =>
        rw [htold', Bool.toNat_true] at hawaited
        omega
  · have hready : told.ready = s.ready := by
      rw [hhush.ready, hnone]
      exact List.append_nil _
    rcases List.mem_append.mp hm with hm | hm
    · exact h.ready job (hready ▸ hm)
    · obtain ⟨id, _, rfl⟩ := List.mem_map.mp hm
      exact ⟨id, rfl⟩

end Untouched

namespace Tended

-- A new task.
theorem enqueue (h : s.Tended Inv most none 0 ended) (huntouched : s.Untouched)
    (request : TaskRequest) (work : Nat → Work ω)
    (hfresh : request.id ∉ s.works.map Prod.fst) (hrequest : request.maxAttempts? = none)
    (hmost : max s.settings.maxAttempts 1 = most)
    (hwork : ∀ number, 1 ≤ number → number ≤ most →
      (work number).Orderly ∧ (work number).Keeps Inv request.id) :
    (s.enqueue request work).1.Tended Inv most none 0 ended := by
  have hsound := h.coherent.fits.sound
  have hleads := h.coherent.leads_enqueue request work hfresh
  have htasks : (s.queue.add (s.queue.newTask s.settings request)).tasks =
      s.queue.tasks ++ [s.queue.newTask s.settings request] := by
    have hkeep : s.queue.tasks.filter (·.id != request.id) = s.queue.tasks := by
      refine List.filter_eq_self.mpr fun task hm => bne_iff_ne.mpr fun he => hfresh ?_
      exact he ▸ hsound.known task hm
    exact congrArg (· ++ [s.queue.newTask s.settings request]) hkeep
  have hstaged : Staged Inv most { s with
      queue := s.queue.add (s.queue.newTask s.settings request)
      works := (request.id, work) :: s.works } := by
    refine ⟨⟨h.disciplined.quiet, h.disciplined.room, ?_, h.disciplined.resumes,
      h.disciplined.waiting, h.disciplined.holders⟩, ?_, fun hm => ?_⟩
    · intro entry he
      rcases List.mem_cons.mp he with rfl | he
      · exact hwork
      · exact h.disciplined.works entry he
    · simp [Queue.add, h.settled.told]
    · obtain ⟨id, he⟩ := huntouched.jobs _ hm
      cases he
  have hbooks := h.books.enqueue hsound (s.queue.newTask s.settings request) hfresh rfl rfl
    (by simp [Queue.newTask, hrequest, hmost]) rfl
  exact (of_launch _ hleads hsound hstaged (htasks ▸ hbooks) fun _ => rfl).1

theorem start (settings : Settings) (world : ω) (hroom : 0 < settings.concurrency) :
    (Scheduler.start settings world []).Tended Inv most none 0 [] := by
  refine ⟨⟨rfl, hroom, ?_, ?_, ?_, ?_⟩, coherent_start settings world [], Run.start.settled, ?_, ?_⟩
  · simp [Scheduler.start]
  · simp [Scheduler.start, Scheduler.jobs]
  · simp [Scheduler.start]
  · simp [Scheduler.start]
  · exact Ledger.books_empty
  · exact fun _ => rfl

-- A scheduler that is waited for comes to rest.
theorem waitIdle (h : s.Tended Inv most none 0 ended) (huntouched : s.Untouched)
    (hinv : Inv ended s.world) :
    ∃ more, s.waitIdle.Tended Inv most none 0 more ∧ Inv more s.waitIdle.world ∧
      s.waitIdle.queue.isIdle = true := by
  have hquiet := h.disciplined.quiet
  rw [Scheduler.waitIdle, hquiet, Reaction.budget, waitFor]
  split
  · rename_i hidle
    exact ⟨ended, h, hinv, hidle⟩
  · have hawaited : Tended Inv most none 0 ended { s with awaited := true } :=
      h.beside _ ⟨rfl, rfl, rfl, rfl, rfl⟩ rfl rfl h.coherent.names
        (h.disciplined.congr rfl rfl rfl rfl rfl rfl)
    exact hawaited.run hinv _ (huntouched.effort_le_horizon h.coherent.fits.sound hquiet)

-- At rest every task has succeeded or failed, and with it an attempt at it has ended.
theorem finished (h : s.Tended Inv most none 0 ended) (hidle : s.queue.isIdle = true) :
    ∀ task ∈ s.queue.tasks, (task.status = .succeeded ∨ task.status = .failed) ∧
      ∃ outcome, (task.id, outcome) ∈ ended := by
  intro task hmem
  have hsound := h.coherent.fits.sound.tasks task hmem
  cases hstatus : task.status with
  | succeeded => exact ⟨.inl rfl, _, h.books.noted task hmem _ (hsound.succeeded hstatus)⟩
  | failed =>
      obtain ⟨_, outcome, hlast, _⟩ := hsound.failed hstatus
      exact ⟨.inr rfl, outcome, h.books.noted task hmem outcome hlast⟩
  | cancelled => exact absurd hstatus (h.books.uncancelled task hmem)
  | _ =>
      rw [Queue.busy_of_mem hmem (by rw [hstatus]; rfl)] at hidle
      cases hidle

-- At rest a task of which no attempt has succeeded counts among those that failed.
theorem countP_unsuccessful_le (h : s.Tended Inv most none 0 ended)
    (hidle : s.queue.isIdle = true) {ids : List String} (hnodup : ids.Nodup)
    (hids : ∀ id ∈ ids, ∃ task ∈ s.queue.tasks, task.id = id) :
    ids.countP (fun id => (id, Outcome.succeeded) ∉ ended) ≤ s.queue.stats.failed := by
  have hsubset : ids.filter (fun id => (id, Outcome.succeeded) ∉ ended) ⊆
      (s.queue.tasks.filter (·.status == .failed)).map (·.id) := by
    intro id hid
    obtain ⟨hmem, hnone⟩ := List.mem_filter.mp hid
    obtain ⟨task, htask, rfl⟩ := hids id hmem
    have hsound := h.coherent.fits.sound.tasks task htask
    rcases (h.finished hidle task htask).1 with hstatus | hstatus
    · exact absurd (h.books.noted task htask _ (hsound.succeeded hstatus)) (of_decide_eq_true hnone)
    · exact List.mem_map_of_mem (List.mem_filter.mpr ⟨htask, beq_iff_eq.mpr hstatus⟩)
  have hlength := ((hnodup.filter _).subperm hsubset).length_le
  rwa [List.length_map, ← List.countP_eq_length_filter, ← List.countP_eq_length_filter] at hlength

end Tended

end Scheduler

end LivePreview.Retry
