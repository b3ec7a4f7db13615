import LivePreview.Proofs.Scheduling.Drained

namespace LivePreview.Retry

variable {ω : Type} {settings : Settings}

namespace Queue

variable {queue : Queue}

-- The note that the queue has drained is given when the queue is idle, or was given before.
theorem drained_mem_launch (h : Note.drained ∈ (queue.launch settings).1.notes) :
    Note.drained ∈ queue.notes ∨ (queue.launch settings).1.isIdle = true := by
  have hdrain : ∀ queue : Queue, Note.drained ∈ queue.noteDrained.notes →
      Note.drained ∈ queue.notes ∨ queue.noteDrained.isIdle = true := by
    intro queue hmem
    rw [isIdle_noteDrained]
    by_cases hidle : queue.isIdle = true
    · exact .inr hidle
    · exact .inl (by simpa [noteDrained, hidle] using hmem)
  induction queue using Queue.launch.induct settings with
  | case1 queue hroom hnone =>
      rw [launch, if_pos hroom, hnone] at h ⊢
      exact hdrain queue h
  | case2 queue hroom task hsome _ _ _ ih =>
      rw [launch, if_pos hroom, hsome] at h ⊢
      exact (ih h).imp_left fun hmem => by simpa [start, update] using hmem
  | case3 queue hfull =>
      rw [launch, if_neg hfull] at h ⊢
      exact hdrain queue h

end Queue

namespace Scheduler

variable {s s' s'' : Scheduler ω}

-- What becomes of a scheduler beside its queue when observers are told who do not call back: whoever
-- waits for the queue to drain may go on.
structure Hushed (s s' : Scheduler ω) (more : List (Job ω)) : Prop where
  settings : s'.settings = s.settings
  works : s'.works = s.works
  runs : s'.runs = s.runs
  world : s'.world = s.world
  reactions : s'.reactions = s.reactions
  alarms : s'.alarms = s.alarms
  held : s'.held = s.held
  ready : s'.ready = s.ready ++ more
  callers : ∀ job ∈ more, job = .caller
  awaited : more.length + s'.awaited.toNat = s.awaited.toNat

theorem Hushed.refl (s : Scheduler ω) : Hushed s s [] := by
  constructor <;> simp

theorem Hushed.trans {more later : List (Job ω)} (first : Hushed s s' more)
    (second : Hushed s' s'' later) : Hushed s s'' (more ++ later) := by
  constructor
  · exact second.settings.trans first.settings
  · exact second.works.trans first.works
  · exact second.runs.trans first.runs
  · exact second.world.trans first.world
  · exact second.reactions.trans first.reactions
  · exact second.alarms.trans first.alarms
  · exact second.held.trans first.held
  · rw [second.ready, first.ready, List.append_assoc]
  · intro job hmem
    exact (List.mem_append.mp hmem).elim (first.callers job) (second.callers job)
  · have hfirst := first.awaited
    have hsecond := second.awaited
    rw [List.length_append]
    omega

theorem hushed_notify (h : s.reactions = []) {note : Note} {rest : List Note}
    (hnotes : s.queue.notes = note :: rest) :
    ∃ more, Hushed s ((s.withNotes rest).notify note) more ∧
      (more ≠ [] → Note.drained ∈ s.queue.notes) := by
  have hnone : (s.withNotes rest).reactions.filter (Reaction.isDue note) = [] := by
    simp [withNotes, h]
  simp only [notify, hnone, react, List.foldl_nil]
  cases note with
  | status task =>
      exact ⟨[], by constructor <;> simp [announce, releaseCaller, log, withNotes, h], by simp⟩
  | drained =>
      cases hawaited : s.awaited with
      | false =>
          refine ⟨[], ?_, by simp⟩
          constructor <;> simp [announce, releaseCaller, log, withNotes, h, hawaited]
      | true =>
          refine ⟨[.caller], ?_, by simp [hnotes]⟩
          constructor <;> simp [announce, releaseCaller, log, withNotes, h, hawaited]

theorem hushed_notifyAll (h : s.reactions = []) :
    ∃ more, Hushed s s.notifyAll more ∧ (more ≠ [] → Note.drained ∈ s.queue.notes) := by
  induction s using notifyAll.induct with
  | case1 s hnotes =>
      rw [notifyAll_of_nil hnotes]
      exact ⟨[], .refl s, by simp⟩
  | case2 s note rest hnotes ih =>
      rw [notifyAll_of_cons hnotes]
      obtain ⟨more, hnotify, hdrained⟩ := hushed_notify h hnotes
      obtain ⟨later, hrest, hlater⟩ := ih (hnotify.reactions.trans h)
      have hqueue : ((s.withNotes rest).notify note).queue = (s.withNotes rest).queue :=
        queue_notify_of_none _ note (by simp [withNotes, h])
      refine ⟨more ++ later, hnotify.trans hrest, fun hne => ?_⟩
      by_cases hmore : more = []
      · rw [hmore, List.nil_append] at hne
        have hmem := hlater hne
        rw [hqueue] at hmem
        rw [hnotes]
        exact List.mem_cons_of_mem _ hmem
      · exact hdrained hmore

-- When what can be launched is launched besides, the attempts launched are ready, and whoever waits
-- goes on only once the queue is idle.
theorem hushed_launch (h : s.reactions = []) (hnotes : Note.drained ∉ s.queue.notes) :
    ∃ (callers : List (Job ω)) (ids : List String) (told : Scheduler ω), Hushed s told callers ∧
      (callers ≠ [] → told.queue.isIdle = true) ∧
      s.launch = { told with ready := told.ready ++ ids.map .attempt } := by
  obtain ⟨callers, htold, hdrained⟩ := hushed_notifyAll
    (s := { s with queue := (s.queue.launch s.settings).1 }) h
  refine ⟨callers, (s.queue.launch s.settings).2, _, ⟨htold.settings, htold.works, htold.runs,
    htold.world, htold.reactions, htold.alarms, htold.held, htold.ready, htold.callers,
    htold.awaited⟩, fun hne => ?_, rfl⟩
  have hidle : (s.queue.launch s.settings).1.isIdle = true :=
    (Queue.drained_mem_launch (hdrained hne)).resolve_left hnotes
  have hqueue := queue_notifyAll (s := { s with queue := (s.queue.launch s.settings).1 }) h
  exact (congrArg Queue.isIdle hqueue).trans hidle

theorem hushed_launchAfter (h : s.reactions = []) (hnotes : Note.drained ∉ s.queue.notes) :
    ∃ (callers : List (Job ω)) (ids : List String) (told : Scheduler ω), Hushed s told callers ∧
      (callers ≠ [] → told.queue.isIdle = true) ∧
      s.notifyAll.launch = { told with ready := told.ready ++ ids.map .attempt } := by
  obtain ⟨early, htold, hearly⟩ := hushed_notifyAll h
  have hnone : early = [] := by
    by_contra hne
    exact hnotes (hearly hne)
  subst hnone
  have hquiet : s.notifyAll.reactions = [] := htold.reactions.trans h
  have hempty : Note.drained ∉ s.notifyAll.queue.notes := by
    rw [notes_notifyAll]
    exact List.not_mem_nil
  obtain ⟨callers, ids, told, hlaunch, hidle, he⟩ := hushed_launch hquiet hempty
  exact ⟨callers, ids, told, htold.trans hlaunch, hidle, he⟩

theorem works_run (fuel : Nat) : (s.run fuel).works = s.works := by
  induction fuel generalizing s with
  | zero => rfl
  | succ fuel ih =>
      unfold run
      split
      · rfl
      · rename_i job later _ _
        exact ih.trans (works_runJob { s with ready := later } job)
      · split
        · rfl
        · exact ih

theorem works_waitIdle (h : s.reactions = []) : s.waitIdle.works = s.works := by
  rw [waitIdle, h, Reaction.budget, waitFor]
  split
  · rfl
  · exact works_run (s := { s with awaited := true }) _

-- Nothing is cancelled, renewed or pruned where observers do not call back: all that is written is
-- what is launched.
theorem notifyAllMoments_of_quiet (h : s.reactions = []) : s.notifyAllMoments = [] := by
  induction s using notifyAll.induct with
  | case1 s hnotes => exact notifyAllMoments_of_nil hnotes
  | case2 s note rest hnotes ih =>
      have hnone : (s.withNotes rest).reactions.filter (Reaction.isDue note) = [] := by
        simp [withNotes, h]
      rw [notifyAllMoments_of_cons hnotes, ih (by simp [withNotes, h]), notifyMoments, hnone]
      rfl

theorem cause_launchMoments (settings : Settings) (queue : Queue) :
    ∀ moment ∈ queue.launchMoments settings, ∃ id, moment.cause = .launch id := by
  induction queue using Queue.launch.induct settings with
  | case1 queue hroom hnone =>
      rw [Queue.launchMoments, if_pos hroom, hnone]
      simp
  | case2 queue hroom task hsome _ _ _ ih =>
      rw [Queue.launchMoments, if_pos hroom, hsome]
      intro moment hmem
      rcases List.mem_cons.mp hmem with rfl | hmem
      · exact ⟨task.id, rfl⟩
      · exact ih moment hmem
  | case3 queue hfull =>
      rw [Queue.launchMoments, if_neg hfull]
      simp

theorem cause_launchAfterMoments (h : s.reactions = []) :
    ∀ moment ∈ s.launchAfterMoments, ∃ id, moment.cause = .launch id := by
  obtain ⟨_, htold, _⟩ := hushed_notifyAll h
  have hquiet := htold.reactions.trans h
  have hnone : ({ s.notifyAll with
      queue := (s.notifyAll.queue.launch s.notifyAll.settings).1 } :
        Scheduler ω).notifyAllMoments = [] := notifyAllMoments_of_quiet hquiet
  intro moment hmem
  rw [launchAfterMoments, notifyAllMoments_of_quiet h, List.nil_append, launchMoments, hnone,
    List.append_nil] at hmem
  exact cause_launchMoments _ _ moment hmem

end Scheduler

end LivePreview.Retry
