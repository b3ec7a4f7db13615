import LivePreview.Proofs.Healing.Attempts
import LivePreview.Proofs.Scheduling.Waiting
import LivePreview.Proofs.Sources.Planning

namespace LivePreview

namespace Retry

-- Settings with which nothing is wrong allow an attempt, and let one run.
theorem Settings.positive_of_problem? {settings : Settings} (h : settings.problem? = none) :
    0 < settings.maxAttempts ∧ 0 < settings.concurrency := by
  unfold problem? at h
  split at h
  · cases h
  split at h
  · cases h
  split at h
  · cases h
  split at h
  · cases h
  · rename_i hattempts hconcurrency
    exact ⟨Nat.pos_of_ne_zero hattempts, Nat.pos_of_ne_zero hconcurrency⟩

-- The counts once all tasks have succeeded or failed.
structure Stats.Settled (stats : Stats) : Prop where
  pending : stats.pending = 0
  inProgress : stats.inProgress = 0
  waiting : stats.waiting = 0
  cancelled : stats.cancelled = 0
  total : stats.total = stats.succeeded + stats.failed

theorem Stats.settled_ofTasks {tasks : List Task}
    (h : ∀ task ∈ tasks, task.status = .succeeded ∨ task.status = .failed) :
    (Stats.ofTasks tasks).Settled := by
  have hnone : ∀ status : Status, status ≠ .succeeded → status ≠ .failed →
      tasks.countP (·.status == status) = 0 := by
    intro status hsucceeded hfailed
    refine List.countP_eq_zero.mpr fun task hm he => ?_
    have hstatus := beq_iff_eq.mp he
    rcases h task hm with ht | ht
    · exact hsucceeded (hstatus.symm.trans ht)
    · exact hfailed (hstatus.symm.trans ht)
  refine ⟨hnone _ (by decide) (by decide), hnone _ (by decide) (by decide),
    hnone _ (by decide) (by decide), hnone _ (by decide) (by decide), ?_⟩
  show tasks.length = tasks.countP (·.status == .succeeded) + tasks.countP (·.status == .failed)
  rw [List.length_eq_countP_add_countP (·.status == .succeeded)]
  congr 1
  refine List.countP_congr fun task hm => ?_
  rcases h task hm with ht | ht <;> rw [ht] <;> decide

end Retry

namespace Healing.Healer

open Retry

section Enqueue

variable {σ ρ : Type} {Inv : List (String × Outcome) → Workspace σ ρ → Prop}
  {most : Nat}

-- The tasks of a plan are given to the scheduler one after the other, under numbers.
theorem tended_enqueueAll (healer : Healer ρ) (round first : Nat) (plan : List (Diagnosis × String))
    {s : Scheduler (Workspace σ ρ)} (h : s.Tended Inv most none 0 []) (huntouched : s.Untouched)
    (hmost : max s.settings.maxAttempts 1 = most)
    (hids : ∀ id ∈ s.works.map Prod.fst, ∃ number < first, id = toString number)
    (hkeeps : ∀ (index : Nat) (part : Diagnosis × String), plan[index]? = some part →
      ∀ number, 1 ≤ number → number ≤ most →
      (Attempt.work healer.classifier healer.service ⟨round, part.1, part.2, number⟩).Keeps Inv
        (toString (first + index))) :
    (healer.enqueueAll round first plan s).Tended Inv most none 0 [] ∧
      (healer.enqueueAll round first plan s).Untouched ∧
      (healer.enqueueAll round first plan s).world = s.world ∧
      ∀ id, id ∈ s.works.map Prod.fst ∨ (∃ index < plan.length, id = toString (first + index)) →
        id ∈ (healer.enqueueAll round first plan s).works.map Prod.fst := by
  induction plan generalizing s first with
  | nil =>
      refine ⟨h, huntouched, rfl, fun id hm => hm.resolve_right ?_⟩
      rintro ⟨index, hlt, _⟩
      exact Nat.not_lt_zero index hlt
  | cons part plan ih =>
      obtain ⟨diagnosis, target⟩ := part
      have hfresh : toString first ∉ s.works.map Prod.fst := by
        intro hm
        obtain ⟨number, hlt, he⟩ := hids _ hm
        exact absurd (toString_inj he) hlt.ne'
      obtain ⟨htouched, hsettings, hworks, hworld⟩ := huntouched.enqueue
        ⟨toString first, diagnosis.kind, none, none, none⟩
        (fun number =>
          Attempt.work healer.classifier healer.service ⟨round, diagnosis, target, number⟩)
        h.disciplined.quiet h.settled.told
      have htended := h.enqueue huntouched ⟨toString first, diagnosis.kind, none, none, none⟩
        (fun number =>
          Attempt.work healer.classifier healer.service ⟨round, diagnosis, target, number⟩)
        hfresh rfl hmost fun number hfirst hlast =>
          ⟨Attempt.orderly_work healer.classifier healer.service ⟨round, diagnosis, target, number⟩,
            hkeeps 0 _ rfl number hfirst hlast⟩
      have hknown : ∀ id, id ∈ ((s.enqueue ⟨toString first, diagnosis.kind, none, none, none⟩
          fun number => Attempt.work healer.classifier healer.service
            ⟨round, diagnosis, target, number⟩).1.works.map Prod.fst) ↔
          id = toString first ∨ id ∈ s.works.map Prod.fst := by
        intro id
        rw [hworks, List.map_cons, List.mem_cons]
      have hnumbers : ∀ id, id = toString first ∨ id ∈ s.works.map Prod.fst →
          ∃ number < first + 1, id = toString number := by
        rintro id (rfl | hm)
        · exact ⟨first, Nat.lt_succ_self first, rfl⟩
        · obtain ⟨number, hlt, he⟩ := hids id hm
          exact ⟨number, Nat.lt_succ_of_lt hlt, he⟩
      have hshift : ∀ index, first + (index + 1) = first + 1 + index := by omega
      obtain ⟨hdone, huntil, hsame, hall⟩ := ih (first + 1) htended htouched
        (by rw [hsettings]; exact hmost) (fun id hm => hnumbers id ((hknown id).mp hm))
        fun index part hpart number hfirst hlast =>
          hshift index ▸ hkeeps (index + 1) part hpart number hfirst hlast
      refine ⟨hdone, huntil, hsame.trans hworld, fun id hm => hall id ?_⟩
      rw [hknown]
      rcases hm with hm | ⟨index, hlt, rfl⟩
      · exact .inl (.inr hm)
      · cases index with
        | zero => exact .inl (.inl rfl)
        | succ index =>
            exact .inr ⟨index, Nat.lt_of_succ_lt_succ hlt, congrArg toString (hshift index)⟩

-- The scheduler of a round comes to rest with the plan carried out: an attempt at each of its parts
-- has ended, and each of its tasks has succeeded or failed; it has failed if no attempt succeeded.
theorem carried_out (healer : Healer ρ) (hsettings : healer.scheduler.problem? = none)
    {workspace : Workspace σ ρ} (hinv : Inv [] workspace) (round : Nat)
    (plan : List (Diagnosis × String))
    (hkeeps : ∀ (index : Nat) (part : Diagnosis × String), plan[index]? = some part →
      ∀ number, 1 ≤ number → number ≤ healer.scheduler.maxAttempts →
      (Attempt.work healer.classifier healer.service ⟨round, part.1, part.2, number⟩).Keeps Inv
        (toString index)) :
    ∃ ended, Inv ended (healer.enqueueAll round 0 plan
        (.start healer.scheduler workspace [])).waitIdle.world ∧
      (healer.enqueueAll round 0 plan
        (.start healer.scheduler workspace [])).waitIdle.queue.stats.Settled ∧
      (healer.enqueueAll round 0 plan
        (.start healer.scheduler workspace [])).waitIdle.queue.stats.succeeded =
          ended.countP (·.2.isSuccess) ∧
      (∀ index < plan.length, ∃ outcome, (toString index, outcome) ∈ ended) ∧
      (List.range plan.length).countP (fun index => (toString index, Outcome.succeeded) ∉ ended) ≤
        (healer.enqueueAll round 0 plan
          (.start healer.scheduler workspace [])).waitIdle.queue.stats.failed := by
  obtain ⟨hattempts, hroom⟩ := Settings.positive_of_problem? hsettings
  have hstart : (Scheduler.start healer.scheduler workspace []).Tended Inv
      healer.scheduler.maxAttempts none 0 [] := .start healer.scheduler workspace hroom
  have huntouched := Scheduler.untouched_start healer.scheduler workspace
  obtain ⟨htended, huntil, hworld, hall⟩ := tended_enqueueAll healer round 0 plan hstart
    huntouched (Nat.max_eq_left hattempts) (by simp [Scheduler.start]) (by simpa using hkeeps)
  obtain ⟨ended, hdone, hkept, hidle⟩ := htended.waitIdle huntil (hworld ▸ hinv)
  have hfinished := hdone.finished hidle
  have htasks : ∀ index < plan.length, ∃ task ∈ (healer.enqueueAll round 0 plan
      (.start healer.scheduler workspace [])).waitIdle.queue.tasks, task.id = toString index := by
    intro index hlt
    refine hdone.books.kept _ ?_
    rw [← Scheduler.works_waitIdle htended.disciplined.quiet] at hall
    exact hall _ (.inr ⟨index, hlt, by rw [Nat.zero_add]⟩)
  refine ⟨ended, hkept, Stats.settled_ofTasks fun task hm => (hfinished task hm).1,
    hdone.books.succeeded, fun index hlt => ?_, ?_⟩
  · obtain ⟨task, hm, hid⟩ := htasks index hlt
    exact hid ▸ (hfinished task hm).2
  · have hnumbers : ((List.range plan.length).map fun index => toString index).Nodup :=
      List.nodup_range.map fun _ _ => toString_inj
    have hless := hdone.countP_unsuccessful_le hidle hnumbers fun id hid => by
      obtain ⟨index, hindex, rfl⟩ := List.mem_map.mp hid
      exact htasks index (List.mem_range.mp hindex)
    rwa [List.countP_map] at hless

end Enqueue

end Healing.Healer

end LivePreview
