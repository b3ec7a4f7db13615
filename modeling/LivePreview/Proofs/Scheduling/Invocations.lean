import LivePreview.Proofs.Scheduling.Course

namespace LivePreview.Retry

-- The attempts that a task has left until it is put back into the queue.
def Task.left (task : Task) : Nat :=
  if task.status.isLive then task.maxAttempts - task.attempts else 0

-- The attempts that the tasks with an identifier have left.
def leftFor (id : String) : List Task → Nat
  | [] => 0
  | task :: table => (if task.id = id then task.left else 0) + leftFor id table

-- How often the work of a task may still be called until the task is put back into the queue. The
-- number allowed for a task that is not made yet is given.
def Ledger.allowance (ledger : Ledger) (id : String) (most : Nat) : Nat :=
  if id ∈ ledger.known then leftFor id ledger.table + ledger.owed.count id else most

theorem leftFor_append (id : String) (first second : List Task) :
    leftFor id (first ++ second) = leftFor id first + leftFor id second := by
  induction first with
  | nil => simp [leftFor]
  | cons task first ih =>
      simp only [List.cons_append, leftFor, ih]
      omega

theorem leftFor_eq_zero {id : String} {table : List Task} (h : ∀ task ∈ table, task.id ≠ id) :
    leftFor id table = 0 := by
  induction table with
  | nil => rfl
  | cons task table ih =>
      rw [leftFor, if_neg (h task List.mem_cons_self),
        ih fun other ho => h other (List.mem_cons_of_mem _ ho)]

-- Tasks to which nothing more happens have no attempts left.
theorem leftFor_filter_terminal (id : String) (table : List Task) :
    leftFor id (table.filter (!·.status.isTerminal)) = leftFor id table := by
  induction table with
  | nil => rfl
  | cons task table ih =>
      rw [List.filter_cons, leftFor]
      cases ht : task.status.isTerminal with
      | false => simp [leftFor, ih]
      | true =>
          have hl : task.status.isLive = false := by
            cases hs : task.status <;> simp [hs, Status.isTerminal, Status.isLive] at ht ⊢
          simp [ih, Task.left, hl]

theorem leftFor_perm {id : String} {first second : List Task} (h : first.Perm second) :
    leftFor id first = leftFor id second := by
  induction h with
  | nil => rfl
  | cons task _ ih => rw [leftFor, leftFor, ih]
  | swap task other table =>
      simp only [leftFor]
      omega
  | trans _ _ ih ih' => exact ih.trans ih'

namespace Ledger

variable {settings : Settings} {ledger : Ledger} {moment : Moment} {id : String} {most : Nat}

theorem allowance_of_known (h : id ∈ ledger.known) :
    ledger.allowance id most = leftFor id ledger.table + ledger.owed.count id := if_pos h

theorem allowance_of_not_known (h : id ∉ ledger.known) : ledger.allowance id most = most := if_neg h

theorem leftFor_of_mem (hs : ledger.Sound) {task : Task} (hmem : task ∈ ledger.table) :
    leftFor task.id ledger.table = task.left := by
  obtain ⟨left, right, ht, _, hother⟩ := exists_replaceTask hs.ids hmem rfl
  rw [ht, leftFor_append, leftFor, if_pos rfl,
    leftFor_eq_zero fun other ho => hother other (List.mem_append_left _ ho),
    leftFor_eq_zero fun other ho => hother other (List.mem_append_right _ ho)]
  omega

theorem count_owed_le_one (hs : ledger.Sound) (id : String) : ledger.owed.count id ≤ 1 :=
  Multiset.nodup_iff_count_le_one.mp hs.single id

-- An attempt is owed for a task under way only.
theorem count_owed_eq_zero (hs : ledger.Sound) {task : Task} (hmem : task ∈ ledger.table)
    (hstatus : task.status ≠ .inProgress) : ledger.owed.count task.id = 0 := by
  apply Multiset.count_eq_zero.mpr
  intro ho
  obtain ⟨other, hm, hid, hrun⟩ := mem_runningIds.mp (hs.running task.id ho)
  exact hstatus (task_eq_of_id_eq hs.ids hm hmem hid ▸ hrun)

-- A task has at most as many attempts left, with those owed, as it was made with.
theorem left_add_owed_le (hs : ledger.Sound) {task : Task} (hmem : task ∈ ledger.table) :
    leftFor task.id ledger.table + ledger.owed.count task.id ≤ task.maxAttempts := by
  rw [leftFor_of_mem hs hmem]
  have hsound := hs.tasks task hmem
  by_cases hrun : task.status = .inProgress
  · have hbegun := hsound.begun hrun
    have hbound := hsound.bounded
    have howed := count_owed_le_one hs task.id
    simp only [Task.left, hrun, Status.isLive, if_true]
    omega
  · rw [count_owed_eq_zero hs hmem hrun]
    unfold Task.left
    split <;> omega

theorem allowance_le (hs : ledger.Sound)
    (hmost : ∀ task ∈ ledger.table, task.id = id → task.maxAttempts ≤ most) :
    ledger.allowance id most ≤ most := by
  by_cases hknown : id ∈ ledger.known
  · rw [allowance_of_known hknown]
    by_cases hmem : ∃ task ∈ ledger.table, task.id = id
    · obtain ⟨task, hm, rfl⟩ := hmem
      exact (left_add_owed_le hs hm).trans (hmost task hm rfl)
    · have hnone : ∀ task ∈ ledger.table, task.id ≠ id := fun task hm he => hmem ⟨task, hm, he⟩
      have howed : id ∉ ledger.owed := by
        intro ho
        obtain ⟨task, hm, he, _⟩ := mem_runningIds.mp (hs.running id ho)
        exact hnone task hm he
      rw [leftFor_eq_zero hnone, Multiset.count_eq_zero.mpr howed]
      exact Nat.zero_le most
  · exact (allowance_of_not_known hknown).le

-- Among the writes of one task only a renewal gives it new attempts.
private theorem allowance_turn (hs : ledger.Sound) {cause : Cause} {before after : Task}
    (hmem : before ∈ ledger.table) (hturn : Turn settings cause before after)
    (hcause : cause ≠ .retry id) :
    (ledger.after ⟨cause, replaceTask ledger.table after⟩).allowance id most ≤
      ledger.allowance id most := by
  have hknown : cause.knownAfter ledger.known = ledger.known := by cases hturn <;> rfl
  have hid := hturn.id_eq
  obtain ⟨left, right, ht, hr, hother⟩ := exists_replaceTask hs.ids hmem hid
  have hsound := hs.tasks before hmem
  have hafter : (ledger.after ⟨cause, replaceTask ledger.table after⟩).known = ledger.known :=
    hknown
  by_cases hk : id ∈ ledger.known
  · rw [allowance_of_known hk, allowance_of_known (hafter ▸ hk)]
    simp only [Ledger.after]
    rw [hr, ht, leftFor_append, leftFor_append, leftFor, leftFor, hid]
    by_cases he : before.id = id
    · subst he
      simp only [if_true]
      cases hturn with
      | retry => exact absurd rfl hcause
      | cancel _ h | cancelAll _ h =>
          simp only [Task.left, Queue.cancelled, Status.isLive, Cause.owedAfter]
          simp
      | launch _ h =>
          have hleft := hsound.left (.inl h)
          simp only [Task.left, Queue.started, h, Status.isLive, if_true, Cause.owedAfter,
            Multiset.count_cons_self]
          omega
      | wake _ h =>
          simp only [Task.left, h, Status.isLive, if_true, Cause.owedAfter]
          omega
      | finish _ h number outcome =>
          rcases attempted_cases settings number before outcome with
            ⟨_, ha⟩ | ⟨_, _, ha⟩ | ⟨_, _, ha⟩ <;> rw [ha] <;>
          simp only [Task.left, h, Status.isLive, if_true, Cause.owedAfter] <;> simp
    · have howed : (cause.owedAfter ledger.owed).count id = ledger.owed.count id := by
        cases hturn with
        | launch => exact Multiset.count_cons_of_ne (Ne.symm he) _
        | _ => rfl
      rw [if_neg he, if_neg he, howed]
  · rw [allowance_of_not_known hk, allowance_of_not_known (hafter ▸ hk)]

-- Each call of the work of a task uses up one of its attempts.
theorem Move.allowance (h : ledger.Move settings moment) (hs : ledger.Sound)
    (hcause : moment.cause ≠ .retry id)
    (hmost : id ∉ ledger.known → ∀ note ∈ changed ledger.table moment.table, note.id = id →
      note.maxAttempts ≤ most) :
    (ledger.after moment).allowance id most + moment.cause.invoked.count id ≤
      ledger.allowance id most := by
  cases h with
  | enqueue task hstatus hsound hid hcreated =>
      have hne : ∀ other ∈ ledger.table, other.id ≠ task.id := by
        intro other ho he
        exact hid (he ▸ hs.known other ho)
      have howed : ledger.owed.count task.id = 0 := by
        apply Multiset.count_eq_zero.mpr
        intro ho
        obtain ⟨other, hm, he, _⟩ := mem_runningIds.mp (hs.running task.id ho)
        exact hne other hm he
      rw [changed_append_new hne] at hmost
      simp only [Cause.invoked, List.count_nil, Nat.add_zero]
      by_cases he : id = task.id
      · subst he
        have hle := hmost hid task (by simp) rfl
        rw [allowance_of_not_known hid, allowance_of_known List.mem_cons_self]
        simp only [Ledger.after, Cause.owedAfter, leftFor_append, leftFor, if_true,
          leftFor_eq_zero hne, howed, Task.left, hstatus, Status.isLive]
        omega
      · by_cases hk : id ∈ ledger.known
        · rw [allowance_of_known hk, allowance_of_known (List.mem_cons_of_mem _ hk)]
          simp [Ledger.after, Cause.owedAfter, leftFor_append, leftFor, Ne.symm he]
        · have hk' : id ∉ (ledger.after ⟨.enqueue task.id, ledger.table ++ [task]⟩).known := by
            simp [Ledger.after, Cause.knownAfter, he, hk]
          rw [allowance_of_not_known hk, allowance_of_not_known hk']
  | turn cause before after hmem hturn hadmits =>
      have hinvoked : cause.invoked = [] := by cases hturn <;> rfl
      rw [hinvoked, List.count_nil, Nat.add_zero]
      exact allowance_turn hs hmem hturn hcause
  | prune =>
      apply Nat.le_of_eq
      simp only [Cause.invoked, List.count_nil, Nat.add_zero, Ledger.allowance, Ledger.after,
        Cause.owedAfter, leftFor_filter_terminal]
      rfl
  | invoke other hother =>
      obtain ⟨task, hm, he, _⟩ := mem_runningIds.mp (hs.running other hother)
      have hk : other ∈ ledger.known := he ▸ hs.known task hm
      by_cases hi : id = other
      · subst hi
        have hpos := Multiset.count_pos.mpr hother
        have hk' : id ∈ (ledger.after ⟨.invoke id, ledger.table⟩).known := hk
        rw [allowance_of_known hk, allowance_of_known hk']
        simp only [Ledger.after, Cause.owedAfter, Cause.invoked, Multiset.count_erase_self,
          List.count_singleton_self]
        omega
      · apply Nat.le_of_eq
        simp only [Ledger.allowance, Ledger.after, Cause.owedAfter, Cause.invoked,
          Multiset.count_erase_of_ne hi, List.count_singleton, beq_false_of_ne (Ne.symm hi)]
        rfl
  | reorder table hperm =>
      apply Nat.le_of_eq
      simp only [Cause.invoked, List.count_nil, Nat.add_zero, Ledger.allowance, Ledger.after,
        Cause.owedAfter, leftFor_perm hperm]
      rfl

theorem known_subset (ledger : Ledger) (moment : Moment) :
    ledger.known ⊆ (ledger.after moment).known := by
  intro id hid
  simp only [after, Cause.knownAfter]
  split
  · exact List.mem_cons_of_mem _ hid
  · exact hid

-- As long as a task is not put back into the queue, its work is called no more often than allowed.
theorem Lawful.count_invocations_le {moments : List Moment} (h : ledger.Lawful settings moments)
    (hs : ledger.Sound) (hcause : ∀ moment ∈ moments, moment.cause ≠ .retry id)
    (hmost : id ∉ ledger.known → ∀ note ∈ changesAlong ledger.table moments, note.id = id →
      note.maxAttempts ≤ most) :
    (invocations moments).count id ≤ ledger.allowance id most := by
  induction moments generalizing ledger with
  | nil => simp [invocations]
  | cons moment moments ih =>
      have hhead := h.1.allowance hs (hcause moment List.mem_cons_self)
        fun hid note hn => hmost hid note (List.mem_append_left _ hn)
      have htail := ih h.2 (h.1.sound hs) (fun m hm => hcause m (List.mem_cons_of_mem _ hm))
        fun hid note hn => hmost (fun hk => hid (known_subset ledger moment hk)) note
          (List.mem_append_right _ hn)
      rw [invocations_cons, List.count_append]
      omega

-- A task that has just been cancelled has no attempts left.
theorem Lawful.count_invocations_of_cancel {moments : List Moment} {table : List Task}
    (h : ledger.Lawful settings (⟨.cancel id, table⟩ :: moments)) (hs : ledger.Sound)
    (hcause : ∀ moment ∈ moments, moment.cause ≠ .retry id) :
    (invocations moments).count id = 0 := by
  obtain ⟨hmove, hrest⟩ := h
  have hsound := hmove.sound hs
  cases hmove with
  | turn _ before after hmem hturn hadmits =>
      cases hturn with
      | cancel _ hstatus =>
          have hafter : Queue.cancelled before ∈
              replaceTask ledger.table (Queue.cancelled before) :=
            mem_replaceTask_self hs.ids hmem rfl
          have hk : before.id ∈ ledger.known := hs.known before hmem
          have hcount : (invocations moments).count before.id ≤
              Ledger.allowance _ before.id 0 :=
            hrest.count_invocations_le hsound hcause fun hid => absurd hk hid
          rw [allowance_of_known (by exact hk)] at hcount
          have hleft : leftFor before.id (replaceTask ledger.table (Queue.cancelled before)) = 0 :=
            leftFor_of_mem hsound hafter
          have howed : ledger.owed.count before.id = 0 :=
            count_owed_eq_zero hs hmem (Status.ne_inProgress_of_isCancellable hstatus)
          simp only [Ledger.after, Cause.owedAfter, hleft, howed] at hcount
          omega

private theorem Move.count_inProgress (h : ledger.Move settings moment) (hs : ledger.Sound)
    (id : String) :
    (statusesOf id (changed ledger.table moment.table)).count .inProgress + ledger.owed.count id =
      moment.cause.invoked.count id + (ledger.after moment).owed.count id := by
  cases h with
  | enqueue task hstatus hsound hid hcreated =>
      rw [changed_append_new fun other ho he => hid (he ▸ hs.known other ho), statusesOf_singleton,
        hstatus]
      split <;> simp [Ledger.after, Cause.owedAfter, Cause.invoked]
  | turn cause before after hmem hturn hadmits =>
      rw [changed_replaceTask hs.ids hmem hturn.id_eq hturn.status_ne, statusesOf_singleton,
        hturn.id_eq]
      have hinvoked : cause.invoked = [] := by cases hturn <;> rfl
      simp only [Ledger.after, hinvoked, List.count_nil, Nat.zero_add]
      cases hturn with
      | cancel | cancelAll | retry | wake =>
          split <;> simp [Queue.cancelled, Queue.renewed, Cause.owedAfter]
      | launch =>
          by_cases he : before.id = id
          · subst he
            simp only [if_true, Queue.started, List.count_singleton_self, Cause.owedAfter,
              Multiset.count_cons_self]
            omega
          · simp only [if_neg he, List.count_nil, Nat.zero_add, Cause.owedAfter,
              Multiset.count_cons_of_ne (Ne.symm he)]
      | finish _ _ number outcome =>
          rcases attempted_cases settings number before outcome with
            ⟨_, ha⟩ | ⟨_, _, ha⟩ | ⟨_, _, ha⟩ <;> rw [ha] <;> split <;> simp [Cause.owedAfter]
  | prune =>
      rw [changed_of_subset List.filter_sublist.subset]
      simp [statusesOf, Ledger.after, Cause.owedAfter, Cause.invoked]
  | invoke other hother =>
      rw [changed_of_subset (List.Subset.refl _)]
      simp only [statusesOf, Ledger.after, Cause.owedAfter, Cause.invoked, List.filter_nil,
        List.map_nil, List.count_nil, Nat.zero_add]
      by_cases he : id = other
      · subst he
        have hpos := Multiset.count_pos.mpr hother
        rw [Multiset.count_erase_self, List.count_singleton_self]
        omega
      · rw [Multiset.count_erase_of_ne he, List.count_singleton, beq_false_of_ne (Ne.symm he)]
        simp
  | reorder table hperm =>
      rw [changed_of_subset hperm.subset]
      simp [statusesOf, Ledger.after, Cause.owedAfter, Cause.invoked]

-- The attempts that were launched are those that began and those that are still owed.
theorem Lawful.count_inProgress {moments : List Moment} (h : ledger.Lawful settings moments)
    (hs : ledger.Sound) (id : String) :
    (statusesOf id (changesAlong ledger.table moments)).count .inProgress + ledger.owed.count id =
      (invocations moments).count id + (ledger.play moments).owed.count id := by
  induction moments generalizing ledger with
  | nil => simp [changesAlong, statusesOf, invocations]
  | cons moment moments ih =>
      have hhead := h.1.count_inProgress hs id
      have htail := ih h.2 (h.1.sound hs)
      have htable : (ledger.after moment).table = moment.table := rfl
      rw [htable] at htail
      rw [changesAlong, statusesOf_append, List.count_append, invocations_cons,
        List.count_append, play_cons]
      omega

end Ledger

end LivePreview.Retry
