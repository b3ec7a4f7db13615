import LivePreview.Proofs.Scheduling.Coherence
import LivePreview.Proofs.Scheduling.Journal
import LivePreview.Proofs.Scheduling.Table

namespace LivePreview.Retry

namespace Task

theorem precedes_iff {task other : Task} :
    task.precedes other = true ↔ other.priority < task.priority ∨
      (task.priority = other.priority ∧ task.created < other.created) := by
  simp [precedes]

theorem precedes_eq_false_iff {task other : Task} :
    task.precedes other = false ↔ ¬other.priority < task.priority ∧
      ¬(task.priority = other.priority ∧ task.created < other.created) := by
  rw [← Bool.not_eq_true, precedes_iff, not_or]

theorem precedes_irrefl (task : Task) : task.precedes task = false :=
  precedes_eq_false_iff.mpr ⟨by omega, by omega⟩

theorem precedes_trans {first second third : Task} (h : first.precedes second = true)
    (h' : second.precedes third = true) : first.precedes third = true := by
  rw [precedes_iff] at h h' ⊢
  omega

-- Of two tasks with different numbers one comes before the other.
theorem precedes_total {task other : Task} (h : task.precedes other = false)
    (h' : other.precedes task = false) : task.created = other.created := by
  rw [precedes_eq_false_iff] at h h'
  omega

end Task

namespace Queue

-- The better one of the best task so far and the next one.
private def better (best? : Option Task) (task : Task) : Option Task :=
  match best? with
  | none => some task
  | some best => if task.precedes best then some task else some best

-- The best task so far comes from the tasks seen, and none of them comes before it.
private theorem foldl_better (tasks seen : List Task) (best? : Option Task)
    (hnone : best? = none → seen = [])
    (hbest : ∀ best ∈ best?, best ∈ seen ∧ ∀ other ∈ seen, other.precedes best = false) :
    (tasks.foldl better best? = none → seen ++ tasks = []) ∧
      ∀ best ∈ tasks.foldl better best?,
        best ∈ seen ++ tasks ∧ ∀ other ∈ seen ++ tasks, other.precedes best = false := by
  induction tasks generalizing seen best? with
  | nil =>
      rw [List.append_nil, List.foldl_nil]
      exact ⟨hnone, hbest⟩
  | cons task tasks ih =>
      have hsplit : seen ++ task :: tasks = (seen ++ [task]) ++ tasks := by simp
      rw [hsplit, List.foldl_cons]
      apply ih
      · intro he
        cases best? with
        | none => cases he
        | some best =>
            simp only [better] at he
            split at he <;> cases he
      · intro next hnext
        cases best? with
        | none =>
            rw [hnone rfl]
            simp only [better, Option.mem_some_iff] at hnext
            subst hnext
            simp [Task.precedes_irrefl]
        | some best =>
            obtain ⟨hmem, hfirst⟩ := hbest best rfl
            simp only [better] at hnext
            split at hnext <;> rw [Option.mem_some_iff] at hnext <;> subst hnext
            · rename_i hbetter
              refine ⟨by simp, ?_⟩
              intro other ho
              rcases List.mem_append.mp ho with ho | ho
              · by_contra hne
                have hthrough := Task.precedes_trans (Bool.not_eq_false _ ▸ hne) hbetter
                rw [hfirst other ho] at hthrough
                cases hthrough
              · rw [List.mem_singleton.mp ho]
                exact Task.precedes_irrefl task
            · rename_i hworse
              refine ⟨List.mem_append_left _ hmem, ?_⟩
              intro other ho
              rcases List.mem_append.mp ho with ho | ho
              · exact hfirst other ho
              · rw [List.mem_singleton.mp ho]
                exact Bool.not_eq_true _ ▸ hworse

theorem mem_tasksIn_pending {queue : Queue} {task : Task} :
    task ∈ queue.tasksIn (some .pending) ↔ task ∈ queue.tasks ∧ task.status = .pending := by
  simp [tasksIn]

private theorem foremost?_spec (queue : Queue) :
    (queue.foremost? = none → queue.tasksIn (some .pending) = []) ∧
      ∀ best ∈ queue.foremost?, best ∈ queue.tasksIn (some .pending) ∧
        ∀ other ∈ queue.tasksIn (some .pending), other.precedes best = false :=
  foldl_better (queue.tasksIn (some .pending)) [] none (fun _ => rfl) (by simp)

theorem foremost?_eq_none {queue : Queue} (h : queue.foremost? = none) :
    ∀ task ∈ queue.tasks, task.status ≠ .pending := by
  intro task hmem hstatus
  have hnil := (foremost?_spec queue).1 h
  have hin := mem_tasksIn_pending.mpr ⟨hmem, hstatus⟩
  rw [hnil] at hin
  cases hin

theorem foremost?_eq_some {queue : Queue} {best : Task} (h : queue.foremost? = some best) :
    best ∈ queue.tasks ∧ best.status = .pending ∧
      ∀ other ∈ queue.tasks, other.status = .pending → other.precedes best = false := by
  obtain ⟨hin, hfirst⟩ := (foremost?_spec queue).2 best h
  obtain ⟨hmem, hstatus⟩ := mem_tasksIn_pending.mp hin
  exact ⟨hmem, hstatus, fun other ho hs => hfirst other (mem_tasksIn_pending.mpr ⟨ho, hs⟩)⟩

-- The order in which the tasks are held does not matter.
theorem foremost?_perm {queue other : Queue} (hcreated : (queue.tasks.map (·.created)).Nodup)
    (hperm : other.tasks.Perm queue.tasks) : other.foremost? = queue.foremost? := by
  cases hother : other.foremost? with
  | none =>
      cases hthis : queue.foremost? with
      | none => rfl
      | some best =>
          obtain ⟨hmem, hstatus, _⟩ := foremost?_eq_some hthis
          exact absurd hstatus (foremost?_eq_none hother best (hperm.mem_iff.mpr hmem))
  | some rival =>
      obtain ⟨hrmem, hrstatus, hrfirst⟩ := foremost?_eq_some hother
      cases hthis : queue.foremost? with
      | none => exact absurd hrstatus (foremost?_eq_none hthis rival (hperm.mem_iff.mp hrmem))
      | some best =>
          obtain ⟨hmem, hstatus, hfirst⟩ := foremost?_eq_some hthis
          have hc := Task.precedes_total (hfirst rival (hperm.mem_iff.mp hrmem) hrstatus)
            (hrfirst best (hperm.mem_iff.mpr hmem) hstatus)
          rw [List.inj_on_of_nodup_map hcreated (hperm.mem_iff.mp hrmem) hmem hc]

end Queue

variable {ω : Type} {settings : Settings} {x : Situation ω}

namespace Queue

-- A note that the queue has drained tells of no task.
theorem noteDrained_frame (queue : Queue) :
    queue.noteDrained.tasks = queue.tasks ∧ queue.noteDrained.active = queue.active ∧
      queue.noteDrained.created = queue.created ∧ queue.noteDrained.timers = queue.timers ∧
      queue.noteDrained.untold = queue.untold := by
  unfold noteDrained
  split <;> simp [untold, Note.told?]

-- A cancelled task is one of the table that does not run.
theorem cancel?_eq_some {queue after : Queue} {id : String} (h : queue.cancel? id = some after) :
    ∃ task ∈ queue.tasks, task.id = id ∧ task.status.isCancellable = true ∧
      after = (queue.update (cancelled task)).noteDrained := by
  unfold cancel? at h
  cases hfind : queue.find? id with
  | none => simp [hfind] at h
  | some task =>
      obtain ⟨hmem, hid⟩ := mem_of_find?_eq_some hfind
      simp only [hfind, Option.ite_none_right_eq_some, Option.some.injEq] at h
      exact ⟨task, hmem, hid, h.1, h.2.symm⟩

theorem retry_eq_ok {queue after : Queue} {id : String} {renewal : Task}
    (h : queue.retry id = .ok (after, renewal)) :
    ∃ task ∈ queue.tasks, task.id = id ∧ task.status.isRetryable = true ∧
      renewal = renewed task ∧ after = { queue.update (renewed task) with drainDue := true } := by
  unfold retry at h
  cases hfind : queue.find? id with
  | none => simp [hfind] at h
  | some task =>
      obtain ⟨hmem, hid⟩ := mem_of_find?_eq_some hfind
      simp only [hfind] at h
      split at h
      · rename_i hr
        simp only [Except.ok.injEq, Prod.mk.injEq] at h
        exact ⟨task, hmem, hid, hr, h.2.symm, h.1.symm⟩
      · cases h

theorem expire?_eq_some {queue after : Queue} {id : String} {number : Nat}
    (h : queue.expire? id number = some after) :
    ∃ task ∈ queue.tasks, task.id = id ∧ task.status = .waiting ∧ task.timer? = some number ∧
      after = queue.update { task with status := .pending, timer? := none } := by
  unfold expire? at h
  cases hfind : queue.find? id with
  | none => simp [hfind] at h
  | some task =>
      obtain ⟨hmem, hid⟩ := mem_of_find?_eq_some hfind
      simp only [hfind, Option.ite_none_right_eq_some, Option.some.injEq] at h
      exact ⟨task, hmem, hid, h.1.1, h.1.2, h.2.symm⟩

end Queue

namespace Situation

-- A queue with the same table, the same counters and the same notices.
theorem Coherent.leads_queue (h : x.Coherent settings) {queue : Queue}
    (htasks : queue.tasks = x.queue.tasks) (hactive : queue.active = x.queue.active)
    (hcreated : queue.created = x.queue.created) (hnumber : queue.timers = x.queue.timers)
    (huntold : queue.untold = x.queue.untold) :
    x.Leads settings [] { x with queue := queue } :=
  h.leads_nil (y := { x with queue := queue }) htasks hactive hcreated hnumber huntold rfl rfl
    (.of_eq rfl)

theorem Coherent.leads_noteDrained (h : x.Coherent settings) :
    x.Leads settings [] { x with queue := x.queue.noteDrained } := by
  obtain ⟨htasks, hactive, hcreated, hnumber, huntold⟩ := Queue.noteDrained_frame x.queue
  exact h.leads_queue htasks hactive hcreated hnumber huntold

theorem Coherent.leads_cancel (h : x.Coherent settings) {id : String} {queue : Queue}
    (hcancel : x.queue.cancel? id = some queue) :
    x.Leads settings [⟨.cancel id, queue.tasks⟩] { x with queue := queue } := by
  obtain ⟨task, hmem, rfl, hstatus, rfl⟩ := Queue.cancel?_eq_some hcancel
  have hne := Status.ne_inProgress_of_isCancellable hstatus
  have hupdate := h.leads_update hmem (.cancel task hstatus) hne (by simp [Queue.cancelled]) rfl
  have hdrained := hupdate.trans hupdate.coherent.leads_noteDrained
  rw [(Queue.noteDrained_frame _).1]
  exact hdrained

-- Tasks are cancelled one by one; those that come later are still as they were.
private theorem Coherent.leads_cancelEach (h : x.Coherent settings) (tasks : List Task)
    (hmem : ∀ task ∈ tasks, task ∈ x.queue.tasks) (hids : (tasks.map (·.id)).Nodup)
    (hstatus : ∀ task ∈ tasks, task.status.isCancellable = true) :
    x.Leads settings (x.queue.cancelMoments tasks)
      { x with
        queue := tasks.foldl (fun queue task => queue.update (Queue.cancelled task)) x.queue } := by
  induction tasks generalizing x with
  | nil => exact .refl h
  | cons task tasks ih =>
      rw [List.map_cons, List.nodup_cons] at hids
      have htask := hmem task List.mem_cons_self
      have hcancellable := hstatus task List.mem_cons_self
      have hne := Status.ne_inProgress_of_isCancellable hcancellable
      have hfirst := h.leads_update htask (.cancelAll task hcancellable) hne
        (by simp [Queue.cancelled]) rfl
      have hrest := ih hfirst.coherent ?_ hids.2 fun other ho =>
        hstatus other (List.mem_cons_of_mem _ ho)
      · exact hfirst.trans hrest
      · intro other ho
        have hid : (Queue.cancelled task).id = task.id := rfl
        refine (mem_replaceTask h.ids htask hid other).mpr
          (.inr ⟨hmem other (List.mem_cons_of_mem _ ho), ?_⟩)
        intro he
        exact hids.1 (he ▸ List.mem_map_of_mem ho)

theorem Coherent.leads_cancelAll (h : x.Coherent settings) :
    x.Leads settings (x.queue.cancelMoments (x.queue.tasks.filter (·.status.isCancellable)))
      { x with queue := x.queue.cancelAll.1 } := by
  have hsub := List.filter_sublist (p := fun task : Task => task.status.isCancellable)
    (l := x.queue.tasks)
  have heach := h.leads_cancelEach (x.queue.tasks.filter (·.status.isCancellable))
    (fun task htask => hsub.subset htask) (h.ids.sublist (hsub.map _))
    fun task htask => (List.mem_filter.mp htask).2
  have hdrained := heach.trans heach.coherent.leads_noteDrained
  rw [List.append_nil] at hdrained
  exact hdrained

theorem Coherent.leads_retry (h : x.Coherent settings) {id : String} {queue : Queue}
    {task : Task} (hretry : x.queue.retry id = .ok (queue, task)) :
    x.Leads settings [⟨.retry id, queue.tasks⟩] { x with queue := queue } := by
  obtain ⟨task, hmem, rfl, hstatus, rfl, rfl⟩ := Queue.retry_eq_ok hretry
  have hne := Status.ne_inProgress_of_isRetryable hstatus
  have hupdate := h.leads_update hmem (.retry task hstatus) hne (by simp [Queue.renewed]) rfl
  exact hupdate.trans (hupdate.coherent.leads_queue rfl rfl rfl rfl rfl)

-- When a timer runs out that is still set, its task is pending again, and the timer is no longer
-- set.
theorem Coherent.leads_expire (h : x.Coherent settings) {timer : Timer} {queue : Queue}
    (hexpire : x.queue.expire? timer.task timer.number = some queue) :
    x.Leads settings [⟨.wake timer.task, queue.tasks⟩] { x with queue := queue } ∧
      queue.isSet timer.task timer.number = false := by
  obtain ⟨task, hmem, hid, hstatus, hnumber, rfl⟩ := Queue.expire?_eq_some hexpire
  have hturn : Turn settings (.wake task.id) task
      { task with status := .pending, timer? := none } :=
    .wake task hstatus
  have hupdate := h.leads_update hmem hturn (by rw [hstatus]; decide) (by simp) rfl
  have hafter := mem_replaceTask_self h.ids hmem hturn.id_eq
  have hfind := Queue.find?_eq_some_of_mem hupdate.coherent.ids hafter
  rw [← hid]
  refine ⟨hupdate, ?_⟩
  rw [Queue.isSet, hfind]
  rfl

-- Launching goes on as long as there is room and a task is pending; each task launched is the
-- foremost one at that moment.
theorem Coherent.leads_launch (h : x.Coherent settings) :
    x.Leads settings (x.queue.launchMoments settings)
      { x with
        queue := (x.queue.launch settings).1
        jobs := (((x.queue.launch settings).2.map Job.attempt : List (Job ω)) :
          Multiset (Job ω)) + x.jobs } := by
  obtain ⟨queue, known, begun, jobs⟩ := x
  dsimp only
  induction queue using Queue.launch.induct settings generalizing jobs with
  | case1 queue hroom hnone =>
      rw [Queue.launchMoments, Queue.launch, if_pos hroom, if_pos hroom, hnone]
      simpa using h.leads_noteDrained
  | case2 queue hroom task hsome _ _ _ ih =>
      rw [Queue.launchMoments, Queue.launch, if_pos hroom, if_pos hroom, hsome]
      obtain ⟨hmem, hstatus, hfirst⟩ := Queue.foremost?_eq_some hsome
      have hstart := h.leads_start hmem hstatus hfirst hroom
      have hrest := hstart.trans (ih _ hstart.coherent)
      simpa [← Multiset.cons_coe, Multiset.add_cons, Multiset.cons_add] using hrest
  | case3 queue hfull =>
      rw [Queue.launchMoments, Queue.launch, if_neg hfull, if_neg hfull]
      simpa using h.leads_noteDrained

end Situation

end LivePreview.Retry
