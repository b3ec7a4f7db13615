import LivePreview.Retry.Scheduler
import Mathlib.Data.Multiset.Bind

namespace LivePreview.Retry

variable {ω : Type}

namespace Job

-- The task whose attempt the job begins.
def owed : Job ω → Multiset String
  | .attempt id => {id}
  | _ => 0

-- The task whose attempt the job begins or goes on with.
def running : Job ω → Multiset String
  | .attempt id => {id}
  | .resume id _ => {id}
  | _ => 0

-- The timer that the job sets or ends.
def timers : Job ω → Multiset Timer
  | .setTimer timer => {timer}
  | .expire timer => {timer}
  | _ => 0

theorem owed_le_running (job : Job ω) : job.owed ≤ job.running := by
  cases job with
  | resume id work => exact Multiset.zero_le _
  | _ => exact le_rfl

end Job

-- The tasks of which an attempt has still to begin, of which an attempt is under way, and the
-- timers that may still run out.
def owedBy (jobs : Multiset (Job ω)) : Multiset String := jobs.bind Job.owed

def runningBy (jobs : Multiset (Job ω)) : Multiset String := jobs.bind Job.running

def timersOf (jobs : Multiset (Job ω)) : Multiset Timer := jobs.bind Job.timers

-- The job that is to set a new timer, if there is one.
def timerJobs (timer? : Option Timer) : Multiset (Job ω) :=
  (timer?.toList.map Job.setTimer : List (Job ω))

section Kinds

variable (job : Job ω) (jobs more : Multiset (Job ω))

@[simp] theorem owedBy_cons : owedBy (job ::ₘ jobs) = job.owed + owedBy jobs :=
  Multiset.cons_bind _ _ _

@[simp] theorem runningBy_cons : runningBy (job ::ₘ jobs) = job.running + runningBy jobs :=
  Multiset.cons_bind _ _ _

@[simp] theorem timersOf_cons : timersOf (job ::ₘ jobs) = job.timers + timersOf jobs :=
  Multiset.cons_bind _ _ _

@[simp] theorem owedBy_add : owedBy (jobs + more) = owedBy jobs + owedBy more :=
  Multiset.add_bind _ _ _

@[simp] theorem runningBy_add : runningBy (jobs + more) = runningBy jobs + runningBy more :=
  Multiset.add_bind _ _ _

@[simp] theorem timersOf_add : timersOf (jobs + more) = timersOf jobs + timersOf more :=
  Multiset.add_bind _ _ _

-- An attempt that goes on with its work is owed no more.
theorem kinds_resume (id : String) (work : Work ω) :
    owedBy (.resume id work ::ₘ jobs) = owedBy jobs ∧
      runningBy (.resume id work ::ₘ jobs) = {id} + runningBy jobs ∧
      timersOf (.resume id work ::ₘ jobs) = timersOf jobs := by
  simp [Job.owed, Job.running, Job.timers]

theorem kinds_timerJobs (timer? : Option Timer) :
    owedBy (timerJobs timer? + jobs) = owedBy jobs ∧
      runningBy (timerJobs timer? + jobs) = runningBy jobs ∧
      timersOf (timerJobs timer? + jobs) = (timer?.toList : Multiset Timer) + timersOf jobs := by
  cases timer? <;> simp [timerJobs, Job.owed, Job.running, Job.timers]

-- An attempt that has still to begin is under way.
theorem owedBy_le_runningBy : owedBy jobs ≤ runningBy jobs := by
  induction jobs using Multiset.induction with
  | empty => exact le_rfl
  | cons job jobs ih =>
      rw [owedBy_cons, runningBy_cons]
      exact add_le_add job.owed_le_running ih

end Kinds

-- The same attempts are owed and under way, and the same timers may run out.
structure SameKinds (jobs other : Multiset (Job ω)) : Prop where
  owed : owedBy other = owedBy jobs
  running : runningBy other = runningBy jobs
  timers : timersOf other = timersOf jobs

namespace SameKinds

variable {job : Job ω} {jobs other hand : Multiset (Job ω)}

theorem of_eq (h : other = jobs) : SameKinds jobs other := by
  subst h
  exact ⟨rfl, rfl, rfl⟩

-- A job in hand goes on as another one of its kind, in hand or not.
theorem turn (next : Job ω) (howed : next.owed = job.owed) (hrunning : next.running = job.running)
    (htimers : next.timers = job.timers) (h : other = next ::ₘ (hand + jobs)) :
    SameKinds (job ::ₘ hand + jobs) other := by
  subst h
  rw [Multiset.cons_add]
  constructor
  · rw [owedBy_cons, owedBy_cons, howed]
  · rw [runningBy_cons, runningBy_cons, hrunning]
  · rw [timersOf_cons, timersOf_cons, htimers]

-- Whoever uses the scheduler bears on no task.
theorem caller : SameKinds jobs (.caller ::ₘ jobs) := by
  constructor <;> simp [Job.owed, Job.running, Job.timers]

theorem symm (h : SameKinds jobs other) : SameKinds other jobs :=
  ⟨h.owed.symm, h.running.symm, h.timers.symm⟩

end SameKinds

namespace Scheduler

-- All jobs of a scheduler: those that are ready, those that wait for their time, and those that
-- wait for a name.
def jobs (s : Scheduler ω) : Multiset (Job ω) :=
  (s.ready : Multiset (Job ω)) + (s.alarms.map Prod.snd : Multiset (Job ω)) +
    (s.held.flatMap Prod.snd : Multiset (Job ω))

theorem jobs_ready_append (s : Scheduler ω) (ready : List (Job ω)) :
    jobs { s with ready := s.ready ++ ready } = (ready : Multiset (Job ω)) + s.jobs := by
  simp only [jobs, ← Multiset.coe_add]
  ac_rfl

-- A job taken from those that are ready.
theorem jobs_ready_split (s : Scheduler ω) {job : Job ω} {earlier later : List (Job ω)}
    (h : s.ready = earlier ++ job :: later) :
    s.jobs = job ::ₘ jobs { s with ready := earlier ++ later } := by
  simp only [jobs, h, ← Multiset.coe_add, ← Multiset.cons_coe, ← Multiset.singleton_add]
  ac_rfl

theorem insertAlarm_perm (due : Nat) (job : Job ω) (alarms : List (Nat × Job ω)) :
    (insertAlarm due job alarms).Perm ((due, job) :: alarms) := by
  induction alarms with
  | nil => exact .rfl
  | cons alarm alarms ih =>
      simp only [insertAlarm]
      split
      · exact (ih.cons alarm).trans (.swap _ _ _)
      · exact .rfl

theorem jobs_alarm (s : Scheduler ω) (due : Nat) (job : Job ω) :
    (s.alarm due job).jobs = job ::ₘ s.jobs := by
  have h := Multiset.coe_eq_coe.mpr ((insertAlarm_perm due job s.alarms).map Prod.snd)
  simp only [jobs, alarm, h, List.map_cons, ← Multiset.cons_coe, ← Multiset.singleton_add]
  ac_rfl

theorem jobs_ring (s : Scheduler ω) {due : Nat} {job : Job ω} {earlier later : List (Nat × Job ω)}
    (h : s.alarms = earlier ++ (due, job) :: later) :
    jobs { s with alarms := earlier ++ later, ready := s.ready ++ [job] } = s.jobs := by
  simp only [jobs, h, List.map_append, List.map_cons, ← Multiset.coe_add, ← Multiset.cons_coe,
    ← Multiset.singleton_add, Multiset.coe_nil, add_zero]
  ac_rfl

-- The entry of a name that is held, the entries besides it being of other names.
private theorem held_split {held : List (String × List (Job ω))} {name : String}
    {waiting : List (Job ω)} (hnames : (held.map Prod.fst).Nodup)
    (h : held.lookup name = some waiting) :
    ∃ left right, held = left ++ (name, waiting) :: right ∧
      (∀ entry ∈ left ++ right, entry.1 ≠ name) := by
  obtain ⟨left, right, rfl, _⟩ := List.lookup_eq_some_iff.mp h
  refine ⟨left, right, rfl, ?_⟩
  intro entry he heq
  have hperm : (left ++ (name, waiting) :: right).Perm ((name, waiting) :: (left ++ right)) :=
    List.perm_middle
  have hnodup := (hperm.map Prod.fst).nodup_iff.mp hnames
  rw [List.map_cons, List.nodup_cons] at hnodup
  exact hnodup.1 (List.mem_map.mpr ⟨entry, he, heq⟩)

-- The held names when those who wait for one of them become others.
def heldWith (held : List (String × List (Job ω))) (name : String)
    (waiting : List (Job ω)) : List (String × List (Job ω)) :=
  held.map fun entry => if entry.1 == name then (name, waiting) else entry

theorem names_heldWith (held : List (String × List (Job ω))) (name : String)
    (waiting : List (Job ω)) : (heldWith held name waiting).map Prod.fst = held.map Prod.fst := by
  rw [heldWith, List.map_map]
  apply List.map_congr_left
  intro entry _
  simp only [Function.comp_apply]
  split
  · rename_i he
    exact (beq_iff_eq.mp he).symm
  · rfl

private theorem heldWith_split {left right : List (String × List (Job ω))} {name : String}
    (waiting next : List (Job ω)) (hother : ∀ entry ∈ left ++ right, entry.1 ≠ name) :
    heldWith (left ++ (name, waiting) :: right) name next = left ++ (name, next) :: right := by
  have hsame : ∀ side ⊆ left ++ right, heldWith side name next = side := by
    intro side hside
    unfold heldWith
    conv_rhs => rw [← List.map_id side]
    apply List.map_congr_left
    intro entry he
    rw [if_neg (by simpa using hother entry (hside he)), id]
  have hleft := hsame left (List.subset_append_left left right)
  have hright := hsame right (List.subset_append_right left right)
  simp only [heldWith, List.map_append, List.map_cons, beq_self_eq_true, if_true] at hleft hright ⊢
  rw [hleft, hright]

-- Whoever waits for a name is a job like the others.
theorem jobs_hold (s : Scheduler ω) (hnames : (s.held.map Prod.fst).Nodup) {name : String}
    {waiting : List (Job ω)} (h : s.held.lookup name = some waiting) (job : Job ω) :
    jobs { s with held := heldWith s.held name (waiting ++ [job]) } = job ::ₘ s.jobs := by
  obtain ⟨left, right, hheld, hother⟩ := held_split hnames h
  simp only [jobs, hheld, heldWith_split waiting _ hother, List.flatMap_append, List.flatMap_cons,
    ← Multiset.coe_add, ← Multiset.singleton_add, ← Multiset.coe_singleton]
  ac_rfl

-- When a name is let go, whoever has waited longest is ready.
theorem jobs_release (s : Scheduler ω) (hnames : (s.held.map Prod.fst).Nodup) (name : String) :
    (s.release name).jobs = s.jobs := by
  unfold release
  split
  · rename_i job waiting h
    obtain ⟨left, right, hheld, hother⟩ := held_split hnames h
    have hwith := heldWith_split (job :: waiting) waiting hother
    rw [heldWith] at hwith
    simp only [jobs, hheld, hwith, List.flatMap_append, List.flatMap_cons,
      ← Multiset.coe_add, ← Multiset.cons_coe, ← Multiset.singleton_add, Multiset.coe_nil, add_zero]
    ac_rfl
  · rename_i hnot
    cases h : s.held.lookup name with
    | none =>
        have hkeep : s.held.filter (·.1 != name) = s.held := by
          apply List.filter_eq_self.mpr
          intro entry he
          have hne := List.lookup_eq_none_iff.mp h entry he
          exact bne_iff_ne.mpr (Ne.symm (by simpa using hne))
        simp only [jobs, hkeep]
    | some waiting =>
        cases waiting with
        | cons job waiting => exact absurd h (hnot job waiting)
        | nil =>
            obtain ⟨left, right, hheld, hother⟩ := held_split hnames h
            have hkeep : s.held.filter (·.1 != name) = left ++ right := by
              rw [hheld, List.filter_append, List.filter_cons_of_neg (by simp),
                ← List.filter_append]
              exact List.filter_eq_self.mpr fun entry he => bne_iff_ne.mpr (hother entry he)
            simp only [jobs, hkeep]
            rw [hheld]
            simp

theorem names_release (s : Scheduler ω) (hnames : (s.held.map Prod.fst).Nodup) (name : String) :
    ((s.release name).held.map Prod.fst).Nodup := by
  unfold release
  split
  · rename_i job waiting h
    have hsame := names_heldWith s.held name waiting
    rw [heldWith] at hsame
    dsimp only
    rw [hsame]
    exact hnames
  · exact hnames.sublist (List.filter_sublist.map _)

end Scheduler

end LivePreview.Retry
