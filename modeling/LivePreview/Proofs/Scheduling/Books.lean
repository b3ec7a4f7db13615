import LivePreview.Proofs.Scheduling.Invocations
import Mathlib.Algebra.GroupWithZero.Nat

namespace LivePreview.Retry

section Replace

variable {table : List Task} {before after : Task}

theorem Task.left_of_isLive {task : Task} (h : task.status.isLive = true) :
    task.left = task.maxAttempts - task.attempts := by rw [left, if_pos h]

theorem sum_replaceTask (f : Task → Nat) (hids : (table.map (·.id)).Nodup) (hmem : before ∈ table)
    (hid : after.id = before.id) :
    ((replaceTask table after).map f).sum + f before = (table.map f).sum + f after := by
  obtain ⟨left, right, ht, hr, _⟩ := exists_replaceTask hids hmem hid
  rw [hr, ht]
  simp only [List.map_append, List.map_cons, List.sum_append, List.sum_cons]
  omega

theorem countP_replaceTask (p : Task → Bool) (hids : (table.map (·.id)).Nodup)
    (hmem : before ∈ table) (hid : after.id = before.id) :
    (replaceTask table after).countP p + (p before).toNat =
      table.countP p + (p after).toNat := by
  obtain ⟨left, right, ht, hr, _⟩ := exists_replaceTask hids hmem hid
  rw [hr, ht]
  simp only [List.countP_append, List.countP_cons]
  cases p before <;> cases p after <;> simp <;> omega

end Replace

namespace Ledger

-- The attempts that may still be launched, and those that were launched and have not begun.
def due (ledger : Ledger) : Nat := (ledger.table.map Task.left).sum + ledger.owed.card

-- What the table says of the attempts that have begun and of those that have ended, as long as no
-- task is cancelled, put back into the queue or taken out of the table.
structure Books (most : Nat) (ledger : Ledger) (ended : List (String × Outcome)) : Prop where
  called : ∀ id ∈ ledger.begun, id ∈ ledger.known
  begun : ∀ task ∈ ledger.table,
    ledger.begun.count task.id + ledger.owed.count task.id = task.attempts
  limit : ∀ task ∈ ledger.table, task.maxAttempts = most
  kept : ∀ id ∈ ledger.known, ∃ task ∈ ledger.table, task.id = id
  uncancelled : ∀ task ∈ ledger.table, task.status ≠ .cancelled
  succeeded : ledger.table.countP (·.status == .succeeded) = ended.countP (·.2.isSuccess)
  noted : ∀ task ∈ ledger.table, ∀ outcome, task.lastResult? = some outcome →
    (task.id, outcome) ∈ ended

section Steps

variable {settings : Settings} {most : Nat} {ledger : Ledger} {ended more : List (String × Outcome)}

theorem books_empty : Books most empty [] := by constructor <;> simp [empty]

-- The write of one task, after which `owed` is what is owed and `ended` what has ended.
private theorem Books.replace (h : ledger.Books most ended) (hs : ledger.Sound)
    {before after : Task} {cause : Cause} (hmem : before ∈ ledger.table)
    (hid : after.id = before.id) (hmax : after.maxAttempts = before.maxAttempts)
    (hknown : cause.knownAfter ledger.known = ledger.known) (hinvoked : cause.invoked = [])
    (howed : (cause.owedAfter ledger.owed).count before.id + before.attempts =
      ledger.owed.count before.id + after.attempts)
    (hothers : ∀ id ≠ before.id, (cause.owedAfter ledger.owed).count id = ledger.owed.count id)
    (hstatus : after.status ≠ .cancelled) (hmore : ended ⊆ more)
    (hsucceeded : ended.countP (·.2.isSuccess) + (after.status == .succeeded).toNat =
      more.countP (·.2.isSuccess) + (before.status == .succeeded).toNat)
    (hnoted : ∀ outcome, after.lastResult? = some outcome → (after.id, outcome) ∈ more) :
    (ledger.after ⟨cause, replaceTask ledger.table after⟩).Books most more := by
  have hmemiff := mem_replaceTask hs.ids hmem hid
  constructor <;> simp only [Ledger.after, hknown, hinvoked, List.nil_append]
  · exact h.called
  · intro task htask
    rcases (hmemiff task).mp htask with rfl | ⟨hm, hne⟩
    · have := h.begun before hmem
      rw [hid]
      omega
    · rw [hothers task.id hne]
      exact h.begun task hm
  · intro task htask
    rcases (hmemiff task).mp htask with rfl | ⟨hm, _⟩
    · rw [hmax]
      exact h.limit before hmem
    · exact h.limit task hm
  · intro id hk
    obtain ⟨task, hm, rfl⟩ := h.kept id hk
    by_cases hne : task.id = before.id
    · exact ⟨after, (hmemiff after).mpr (.inl rfl), hid.trans hne.symm⟩
    · exact ⟨task, (hmemiff task).mpr (.inr ⟨hm, hne⟩), rfl⟩
  · intro task htask
    rcases (hmemiff task).mp htask with rfl | ⟨hm, _⟩
    · exact hstatus
    · exact h.uncancelled task hm
  · have hcount := countP_replaceTask (·.status == .succeeded) hs.ids hmem hid
    have hbefore := h.succeeded
    omega
  · intro task htask outcome hlast
    rcases (hmemiff task).mp htask with rfl | ⟨hm, _⟩
    · exact hnoted outcome hlast
    · exact hmore (h.noted task hm outcome hlast)

theorem Books.launch (h : ledger.Books most ended) (hs : ledger.Sound) {task : Task}
    (hmem : task ∈ ledger.table) (hstatus : task.status = .pending) :
    (ledger.after ⟨.launch task.id, replaceTask ledger.table (Queue.started task)⟩).Books most
      ended := by
  refine h.replace hs hmem rfl rfl rfl rfl ?_ ?_ ?_ (List.Subset.refl _) ?_ ?_
  · simp [Cause.owedAfter, Queue.started]
    omega
  · intro id hne
    simp [Cause.owedAfter, hne]
  · simp [Queue.started]
  · rw [hstatus]
    rfl
  · exact h.noted task hmem

theorem Books.wake (h : ledger.Books most ended) (hs : ledger.Sound) {task : Task}
    (hmem : task ∈ ledger.table) (hstatus : task.status = .waiting) :
    (ledger.after ⟨.wake task.id,
      replaceTask ledger.table { task with status := .pending, timer? := none }⟩).Books most
      ended := by
  refine h.replace hs hmem rfl rfl rfl rfl rfl (fun _ _ => rfl) (by simp) (List.Subset.refl _) ?_ ?_
  · rw [hstatus]
    rfl
  · exact h.noted task hmem

theorem Books.finish (h : ledger.Books most ended) (hs : ledger.Sound) {task : Task}
    (hmem : task ∈ ledger.table) (hstatus : task.status = .inProgress) (settings : Settings)
    (number : Nat) (outcome : Outcome) :
    (ledger.after ⟨.finish task.id, replaceTask ledger.table
      (Queue.attempted settings number task outcome)⟩).Books most
      (ended ++ [(task.id, outcome)]) := by
  have hturn : Turn settings (.finish task.id) task
      (Queue.attempted settings number task outcome) := .finish task hstatus number outcome
  have hcases := attempted_cases settings number task outcome
  refine h.replace hs hmem hturn.id_eq hturn.made_eq.2 rfl rfl ?_ (fun _ _ => rfl) ?_
    (List.subset_append_left _ _) ?_ ?_
  · rcases hcases with ⟨_, he⟩ | ⟨_, _, he⟩ | ⟨_, _, he⟩ <;> rw [he] <;> rfl
  · rcases hcases with ⟨_, he⟩ | ⟨_, _, he⟩ | ⟨_, _, he⟩ <;> rw [he] <;> simp
  · rw [List.countP_append, List.countP_singleton, hstatus]
    rcases hcases with ⟨rfl, he⟩ | ⟨ho, _, he⟩ | ⟨ho, _, he⟩
    · rw [he]
      rfl
    · rw [he, ho]
      rfl
    · rw [he, ho]
      rfl
  · intro last hlast
    rw [hturn.id_eq]
    have he : last = outcome := by
      rcases hcases with ⟨_, he⟩ | ⟨_, _, he⟩ | ⟨_, _, he⟩ <;> rw [he] at hlast <;>
        exact (Option.some.inj hlast).symm
    simp [he]

theorem Books.invoke (h : ledger.Books most ended) (hs : ledger.Sound) {id : String}
    (howed : id ∈ ledger.owed) : (ledger.after ⟨.invoke id, ledger.table⟩).Books most ended := by
  refine ⟨?_, ?_, h.limit, h.kept, h.uncancelled, h.succeeded, h.noted⟩
  · intro other hother
    rcases List.mem_cons.mp hother with rfl | hother
    · obtain ⟨task, hm, rfl, _⟩ := mem_runningIds.mp (hs.running other howed)
      exact hs.known task hm
    · exact h.called other hother
  · intro task htask
    have hbegun := h.begun task htask
    simp only [Ledger.after, Cause.invoked, Cause.owedAfter, List.singleton_append]
    by_cases hid : id = task.id
    · subst hid
      have hpos := Multiset.count_pos.mpr howed
      rw [List.count_cons_self, Multiset.count_erase_self]
      omega
    · rw [List.count_cons_of_ne hid, Multiset.count_erase_of_ne (Ne.symm hid)]
      exact hbegun

theorem Books.enqueue (h : ledger.Books most ended) (hs : ledger.Sound) (task : Task)
    (hid : task.id ∉ ledger.known) (hstatus : task.status = .pending) (hattempts : task.attempts = 0)
    (hmax : task.maxAttempts = most) (hlast : task.lastResult? = none) :
    (ledger.after ⟨.enqueue task.id, ledger.table ++ [task]⟩).Books most ended := by
  constructor <;> simp only [Ledger.after, Cause.knownAfter, Cause.invoked, Cause.owedAfter,
    List.nil_append, List.mem_append, List.mem_cons, List.not_mem_nil, or_false]
  · exact fun id hm => .inr (h.called id hm)
  · rintro other (ho | rfl)
    · exact h.begun other ho
    · have hbegun : other.id ∉ ledger.begun := fun hm => hid (h.called _ hm)
      have howed : other.id ∉ ledger.owed := by
        intro hm
        obtain ⟨old, hold, he, _⟩ := mem_runningIds.mp (hs.running _ hm)
        exact hid (he ▸ hs.known old hold)
      rw [List.count_eq_zero_of_not_mem hbegun, Multiset.count_eq_zero_of_notMem howed, hattempts]
  · rintro other (ho | rfl)
    · exact h.limit other ho
    · exact hmax
  · rintro id (rfl | hk)
    · exact ⟨task, .inr rfl, rfl⟩
    · obtain ⟨other, ho, he⟩ := h.kept id hk
      exact ⟨other, .inl ho, he⟩
  · rintro other (ho | rfl)
    · exact h.uncancelled other ho
    · simp [hstatus]
  · rw [List.countP_append, h.succeeded]
    simp [hstatus]
  · rintro other (ho | rfl) outcome ho'
    · exact h.noted other ho outcome ho'
    · rw [hlast] at ho'
      cases ho'

-- What is launched is one attempt less left and one more owed.
theorem due_launch (hs : ledger.Sound) {task : Task} (hmem : task ∈ ledger.table)
    (hstatus : task.status = .pending) :
    (ledger.after ⟨.launch task.id, replaceTask ledger.table (Queue.started task)⟩).due =
      ledger.due := by
  have hsum := sum_replaceTask Task.left hs.ids hmem
    (show (Queue.started task).id = task.id from rfl)
  have hless := (hs.tasks task hmem).left (.inl hstatus)
  have hlive : task.status.isLive = true := by rw [hstatus]; rfl
  have hbefore := Task.left_of_isLive hlive
  have hafter : (Queue.started task).left = task.maxAttempts - (task.attempts + 1) :=
    Task.left_of_isLive rfl
  simp only [due, Ledger.after, Cause.owedAfter, Multiset.card_cons]
  omega

theorem due_wake (hs : ledger.Sound) {task : Task} (hmem : task ∈ ledger.table)
    (hstatus : task.status = .waiting) :
    (ledger.after ⟨.wake task.id,
      replaceTask ledger.table { task with status := .pending, timer? := none }⟩).due =
      ledger.due := by
  have hsum := sum_replaceTask Task.left hs.ids hmem
    (show ({ task with status := .pending, timer? := none } : Task).id = task.id from rfl)
  have hlive : task.status.isLive = true := by rw [hstatus]; rfl
  have hsame : ({ task with status := .pending, timer? := none } : Task).left = task.left := by
    rw [Task.left_of_isLive rfl, Task.left_of_isLive hlive]
  simp only [due, Ledger.after, Cause.owedAfter]
  omega

theorem due_finish (hs : ledger.Sound) {task : Task} (hmem : task ∈ ledger.table)
    (hstatus : task.status = .inProgress) (settings : Settings) (number : Nat)
    (outcome : Outcome) :
    (ledger.after ⟨.finish task.id, replaceTask ledger.table
      (Queue.attempted settings number task outcome)⟩).due ≤ ledger.due := by
  have hturn : Turn settings (.finish task.id) task
      (Queue.attempted settings number task outcome) := .finish task hstatus number outcome
  have hsum := sum_replaceTask Task.left hs.ids hmem hturn.id_eq
  have hless : (Queue.attempted settings number task outcome).left ≤ task.left := by
    rcases attempted_cases settings number task outcome with
      ⟨_, he⟩ | ⟨_, _, he⟩ | ⟨_, _, he⟩ <;> rw [he] <;>
      simp [Task.left, hstatus, Status.isLive]
  simp only [due, Ledger.after, Cause.owedAfter]
  omega

theorem due_invoke {id : String} (howed : id ∈ ledger.owed) :
    (ledger.after ⟨.invoke id, ledger.table⟩).due + 1 = ledger.due := by
  have hcard := Multiset.card_erase_add_one howed
  simp only [due, Ledger.after, Cause.owedAfter]
  omega

theorem Move.launch_cases {id : String} {table : List Task}
    (h : ledger.Move settings ⟨.launch id, table⟩) :
    ∃ task ∈ ledger.table, task.status = .pending ∧ id = task.id ∧
      table = replaceTask ledger.table (Queue.started task) := by
  cases h with
  | turn cause before after hmem hturn hadmits =>
      cases hturn with
      | launch _ hstatus => exact ⟨before, hmem, hstatus, rfl, rfl⟩

-- The attempts launched one after the other.
theorem Books.play_launches {moments : List Moment} (h : ledger.Books most ended) (hs : ledger.Sound)
    (hlawful : ledger.Lawful settings moments)
    (hcause : ∀ moment ∈ moments, ∃ id, moment.cause = .launch id) :
    (ledger.play moments).Books most ended ∧ (ledger.play moments).due = ledger.due := by
  induction moments generalizing ledger with
  | nil => exact ⟨h, rfl⟩
  | cons moment moments ih =>
      obtain ⟨cause, table⟩ := moment
      obtain ⟨id, rfl⟩ : ∃ id, cause = .launch id := hcause _ List.mem_cons_self
      obtain ⟨task, hmem, hstatus, rfl, rfl⟩ := hlawful.1.launch_cases
      have hnext := ih (h.launch hs hmem hstatus) (hlawful.1.sound hs) hlawful.2
        fun moment hm => hcause moment (List.mem_cons_of_mem _ hm)
      exact ⟨hnext.1, hnext.2.trans (due_launch hs hmem hstatus)⟩

end Steps

end Ledger

end LivePreview.Retry
