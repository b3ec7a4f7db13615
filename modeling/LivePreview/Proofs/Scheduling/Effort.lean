import LivePreview.Proofs.Scheduling.Books
import LivePreview.Proofs.Scheduling.Locks
import LivePreview.Proofs.Scheduling.Quiet

namespace LivePreview.Retry

variable {ω : Type}

-- The steps that a job may still take, those of the attempts apart that are not begun: work that has
-- a name held goes on after each nap, and a timer may be set when it has ended, which rings and runs
-- out.
noncomputable def Job.weight : Job ω → Nat
  | .attempt _ => 0
  | .resume _ work => 4 + 2 * work.naps
  | .setTimer _ => 3
  | .expire _ => 1
  | .caller => 1

-- More attempts are never owed than may be made.
theorem Ledger.Sound.due_le {ledger : Ledger} (h : ledger.Sound) :
    ledger.due ≤ (ledger.table.map (·.maxAttempts)).sum := by
  have hall : ∀ table : List Task, (∀ task ∈ table, task.Sound) →
      (table.map Task.left).sum + (runningIds table).length ≤
        (table.map (·.maxAttempts)).sum := by
    intro table
    induction table with
    | nil => exact fun _ => le_rfl
    | cons task table ih =>
        intro hsound
        have hrest := ih fun other ho => hsound other (List.mem_cons_of_mem _ ho)
        have hfirst := hsound task List.mem_cons_self
        have hleft : task.left ≤ task.maxAttempts - task.attempts := by
          rw [Task.left]
          split
          · exact le_rfl
          · exact Nat.zero_le _
        simp only [runningIds, List.filter_cons, List.map_cons, List.sum_cons, beq_iff_eq] at hrest ⊢
        by_cases hstatus : task.status = .inProgress
        · have hbegun := hfirst.begun hstatus
          have hbound := hfirst.bounded
          rw [if_pos hstatus, List.map_cons, List.length_cons]
          omega
        · rw [if_neg hstatus]
          omega
  have howed : ledger.owed.card ≤ (runningIds ledger.table).length := by
    have hle : ledger.owed ≤ (runningIds ledger.table : Multiset String) :=
      (Multiset.le_iff_subset h.single).mpr fun id hm => Multiset.mem_coe.mpr (h.running id hm)
    exact Multiset.card_le_card hle
  have htable := hall ledger.table h.tasks
  rw [Ledger.due]
  omega

namespace Scheduler

variable {s s' : Scheduler ω} {hand : Multiset (Job ω)}

-- The steps that the jobs may still take.
noncomputable def load (s : Scheduler ω) : Nat := (s.jobs.map Job.weight).sum

-- The steps that running the scheduler may still take: an attempt that is not begun yet takes eleven
-- of them at most.
noncomputable def effort (s : Scheduler ω) (hand : Multiset (Job ω)) : Nat :=
  11 * (s.situation hand).ledger.due + s.load + s.alarms.length + s.awaited.toNat

theorem jobs_of_append {more : List (Job ω)} (hready : s'.ready = s.ready ++ more)
    (halarms : s'.alarms = s.alarms) (hheld : s'.held = s.held) :
    s'.jobs = (more : Multiset (Job ω)) + s.jobs := by
  rw [← jobs_ready_append]
  simp only [jobs, hready, halarms, hheld]

theorem load_of_append {more : List (Job ω)} (hready : s'.ready = s.ready ++ more)
    (halarms : s'.alarms = s.alarms) (hheld : s'.held = s.held) :
    s'.load = (more.map Job.weight).sum + s.load := by
  rw [load, jobs_of_append hready halarms hheld, Multiset.map_add, Multiset.sum_add,
    Multiset.map_coe, Multiset.sum_coe]
  rfl

theorem load_alarm (s : Scheduler ω) (due : Nat) (job : Job ω) :
    (s.alarm due job).load = job.weight + s.load := by
  rw [load, jobs_alarm, Multiset.map_cons, Multiset.sum_cons]
  rfl

theorem length_alarms_alarm (s : Scheduler ω) (due : Nat) (job : Job ω) :
    (s.alarm due job).alarms.length = s.alarms.length + 1 :=
  (insertAlarm_perm due job s.alarms).length_eq

-- A job that is taken from those that are ready.
theorem load_take {job : Job ω} {later : List (Job ω)} (hready : s.ready = job :: later) :
    s.load = job.weight + load { s with ready := later } := by
  have hsplit := jobs_ready_split s (show s.ready = [] ++ job :: later from hready)
  rw [load, hsplit, Multiset.map_cons, Multiset.sum_cons]
  rfl

-- Before what can be launched is launched: nobody is about to go on who waits for the queue to
-- drain.
structure Staged (Inv : List (String × Outcome) → ω → Prop) (most : Nat) (s : Scheduler ω) :
    Prop where
  disciplined : s.Disciplined Inv most none
  drained : Note.drained ∉ s.queue.notes
  callers : .caller ∉ s.jobs

-- Launching takes no steps from what is left.
theorem Staged.launch {Inv : List (String × Outcome) → ω → Prop} {most : Nat}
    (h : s.Staged Inv most) :
    s.notifyAll.launch.Disciplined Inv most none ∧
      (.caller ∈ s.notifyAll.launch.jobs → s.notifyAll.launch.queue.isIdle = true) ∧
      s.notifyAll.launch.load + s.notifyAll.launch.awaited.toNat = s.load + s.awaited.toNat ∧
      s.notifyAll.launch.alarms = s.alarms ∧ s.notifyAll.launch.world = s.world := by
  obtain ⟨callers, ids, told, hhush, hidle, he⟩ :=
    hushed_launchAfter h.disciplined.quiet h.drained
  rw [he]
  have hready : ({ told with ready := told.ready ++ ids.map .attempt } : Scheduler ω).ready =
      s.ready ++ (callers ++ ids.map .attempt) := by
    rw [← List.append_assoc, ← hhush.ready]
  have hjobs := jobs_of_append hready hhush.alarms hhush.held
  refine ⟨?_, ?_, ?_, hhush.alarms, hhush.world⟩
  · refine h.disciplined.extend hhush.reactions hhush.settings hhush.works hhush.held
      hhush.alarms hready fun job hm => ?_
    rcases List.mem_append.mp hm with hm | hm
    · rw [hhush.callers job hm]
      trivial
    · obtain ⟨id, _, rfl⟩ := List.mem_map.mp hm
      trivial
  · intro hm
    rw [hjobs, Multiset.mem_add, Multiset.mem_coe, List.mem_append] at hm
    rcases hm with (hm | hm) | hm
    · exact hidle (List.ne_nil_of_mem hm)
    · obtain ⟨id, _, he⟩ := List.mem_map.mp hm
      cases he
    · exact absurd hm h.callers
  · have hcallers : ∀ callers : List (Job ω), (∀ job ∈ callers, job = .caller) →
        (callers.map Job.weight).sum = callers.length := by
      intro callers
      induction callers with
      | nil => exact fun _ => rfl
      | cons job callers ih =>
          intro hall
          rw [List.map_cons, List.sum_cons, hall job List.mem_cons_self, List.length_cons,
            ih fun other ho => hall other (List.mem_cons_of_mem _ ho), Nat.add_comm]
          rfl
    have hattempts : ((ids.map .attempt : List (Job ω)).map Job.weight).sum = 0 := by
      rw [List.map_map]
      exact List.sum_eq_zero fun weight hm => by
        obtain ⟨id, _, rfl⟩ := List.mem_map.mp hm
        rfl
    have hload := load_of_append hready hhush.alarms hhush.held
    rw [List.map_append, List.sum_append, hcallers callers hhush.callers, hattempts] at hload
    have hawaited := hhush.awaited
    rw [hload]
    dsimp only
    omega

end Scheduler

end LivePreview.Retry
