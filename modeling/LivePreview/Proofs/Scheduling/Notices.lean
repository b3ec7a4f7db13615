import LivePreview.Proofs.Scheduling.Invocations
import LivePreview.Proofs.Scheduling.Settled

namespace LivePreview.Retry

variable {ω : Type}

section Journal

variable {settings : Settings} {earlier segment later : List Moment}

-- Only a renewal puts a task that has come to its end back into the queue.
theorem cause_of_renewed {moment : Moment}
    (h : Ledger.empty.Lawful settings (earlier ++ moment :: later)) {before after : Task}
    (hbefore : before ∈ tableAfter earlier) (hafter : after ∈ moment.table)
    (hid : after.id = before.id) (hretryable : before.status.isRetryable = true)
    (hpending : after.status = .pending) : moment.cause = .retry before.id := by
  obtain ⟨hmove, hsound⟩ := h.move Ledger.sound_empty
  have hne : after.status ≠ before.status := by
    intro he
    rw [← he, hpending] at hretryable
    cases hretryable
  obtain ⟨hturn, _⟩ := hmove.turn_of_ne hsound hbefore hafter hid hne
  generalize moment.cause = cause at hturn
  cases hturn with
  | cancel | cancelAll => cases hpending
  | retry => rfl
  | launch _ hs | finish _ hs | wake _ hs =>
      rw [hs] at hretryable
      cases hretryable

-- In a part of a journal without a renewal of a task its work is called no more often than the task
-- may be attempted.
theorem count_invocations_le_maxAttempts
    (h : Ledger.empty.Lawful settings (earlier ++ segment ++ later)) {task : Task}
    (htask : task ∈ changesOf (earlier ++ segment ++ later))
    (hcause : ∀ moment ∈ segment, moment.cause ≠ .retry task.id) :
    (invocations segment).count task.id ≤ task.maxAttempts := by
  have hlimit := (recorded_changesOf h).limit
  have hfirst := (Ledger.lawful_append.mp h).1
  obtain ⟨hearlier, hsegment⟩ := Ledger.lawful_append.mp hfirst
  have hsound := hearlier.sound Ledger.sound_empty
  have hsmall : ∀ note ∈ changesOf earlier ++ changesAlong (tableAfter earlier) segment,
      note.id = task.id → note.maxAttempts ≤ task.maxAttempts := by
    intro note hn hid
    rw [← changesOf_append] at hn
    have hall : note ∈ changesOf (earlier ++ segment ++ later) := by
      rw [changesOf_append]
      exact List.mem_append_left _ hn
    exact (hlimit note hall task htask hid).le
  have hcount : (invocations segment).count task.id ≤
      (Ledger.empty.play earlier).allowance task.id task.maxAttempts :=
    hsegment.count_invocations_le hsound hcause
      fun _ note hn hid => hsmall note (List.mem_append_right _ hn) hid
  refine hcount.trans (Ledger.allowance_le hsound ?_)
  intro other ho hid
  obtain ⟨note, hn, hnid, hmax⟩ := (recorded_changesOf hearlier).present other ho
  exact hmax ▸ hsmall note (List.mem_append_left _ hn) (hnid.trans hid)

-- Launches and calls of the work take turns: at any moment all launches but perhaps the last have
-- led to one call each.
theorem launches_take_turns (h : Ledger.empty.Lawful settings (earlier ++ later)) (id : String) :
    (invocations earlier).count id ≤ (statusesOf id (changesOf earlier)).count .inProgress ∧
      (statusesOf id (changesOf earlier)).count .inProgress ≤
        (invocations earlier).count id + 1 := by
  have hearlier := (Ledger.lawful_append.mp h).1
  have hcount := hearlier.count_inProgress Ledger.sound_empty id
  have howed := Ledger.count_owed_le_one (hearlier.sound Ledger.sound_empty) id
  have hnone : Ledger.empty.owed.count id = 0 := rfl
  have hchanges : changesAlong Ledger.empty.table earlier = changesOf earlier := rfl
  rw [hchanges] at hcount
  omega

end Journal

namespace Scheduler

variable {s : Scheduler ω}

-- What observers, the work of the tasks and the callers get to see of a journal.
structure Faithful (journal : List Moment) (s : Scheduler ω) : Prop where
  -- Observers were told of each change of a state, in order, and of nothing else.
  told : s.told = changesOf journal
  nothingLeft : s.queue.notes = []
  table : tableAfter journal = s.queue.tasks
  single : ∀ earlier moment later, journal = earlier ++ moment :: later →
    (changed (tableAfter earlier) moment.table).length ≤ 1
  -- The notices of a task form a path, and only a renewal leads back from the end of it.
  course : ∀ id, IsCourse (statusesOf id s.told)
  renewed : ∀ earlier moment later, journal = earlier ++ moment :: later →
    ∀ before ∈ tableAfter earlier, ∀ after ∈ moment.table, after.id = before.id →
      before.status.isRetryable = true → after.status = .pending → moment.cause = .retry before.id
  -- Each launch leads to one call of the work of its task; those that did not yet are still owed.
  calls : invocations journal = s.runs.reverse
  launches : ∀ earlier later, journal = earlier ++ later → ∀ id,
    (invocations earlier).count id ≤ (statusesOf id (changesOf earlier)).count .inProgress ∧
      (statusesOf id (changesOf earlier)).count .inProgress ≤ (invocations earlier).count id + 1
  owed : ∀ id, (statusesOf id s.told).count .inProgress =
    s.runs.count id + (owedBy s.jobs).count id
  work : (s.works.map Prod.fst).Nodup ∧
    ∀ id ∈ owedBy s.jobs, ∃ work, s.works.lookup id = some work
  -- Between two renewals of a task its work is called as often as allowed at most, and not at all
  -- once the task is cancelled.
  budget : ∀ earlier segment later, journal = earlier ++ segment ++ later → ∀ task ∈ s.told,
    (∀ moment ∈ segment, moment.cause ≠ .retry task.id) →
      (invocations segment).count task.id ≤ task.maxAttempts
  cancelled : ∀ earlier segment later id table,
    journal = earlier ++ (⟨.cancel id, table⟩ :: segment) ++ later →
      (∀ moment ∈ segment, moment.cause ≠ .retry id) → (invocations segment).count id = 0
  -- An operation that is accepted writes what it is about first, and one that is refused nothing.
  cancelAccepted : ∀ id, (s.cancel id).2 = true →
    ∃ table rest, s.cancelMoments id = ⟨.cancel id, table⟩ :: rest
  cancelRefused : ∀ id, (s.cancel id).2 = false → s.cancelMoments id = [] ∧ (s.cancel id).1 = s
  retryAccepted : ∀ id task, (s.retry id).2 = .ok task →
    ∃ table rest, s.retryMoments id = ⟨.retry id, table⟩ :: rest
  retryRefused : ∀ id e, (s.retry id).2 = .error e → s.retryMoments id = [] ∧ (s.retry id).1 = s

-- The work of a task that is to be called is known.
private theorem exists_work (h : s.Coherent 0) {id : String} (howed : id ∈ owedBy s.jobs) :
    ∃ work, s.works.lookup id = some work := by
  have hall : id ∈ (s.situation 0).ledger.owed := by
    have hjobs : (s.situation 0).jobs = s.jobs := zero_add _
    rw [Situation.ledger, hjobs]
    exact howed
  obtain ⟨task, hm, rfl, _⟩ := mem_runningIds.mp (h.fits.sound.running id hall)
  have hknown : task.id ∈ s.works.map Prod.fst := h.fits.sound.known task hm
  cases hwork : s.works.lookup task.id with
  | some work => exact ⟨work, rfl⟩
  | none =>
      obtain ⟨entry, he, hid⟩ := List.mem_map.mp hknown
      exact absurd (List.lookup_eq_none_iff.mp hwork entry he) (by simp [hid])

-- What observers are told of a run is what happened in it.
theorem Run.faithful {settings : Settings} {world : ω} {reactions : List Reaction}
    {past : List (Scheduler ω)} {journal : List Moment}
    (hrun : Run settings world reactions past journal s) : s.Faithful journal := by
  have hleads := hrun.leads
  have h := hleads.coherent
  have hlawful : Ledger.empty.Lawful settings journal := hleads.lawful
  have hplayed : Ledger.empty.play journal = (s.situation 0).ledger := hleads.played
  have hnotes := hrun.settled.told
  have htold : s.told = changesOf journal := by
    have hheard : s.heard = changesOf journal := hleads.heard
    rwa [heard, Queue.untold, hnotes, List.filterMap_nil, List.append_nil] at hheard
  have howed : (s.situation 0).ledger.owed = owedBy s.jobs := congrArg owedBy (zero_add s.jobs)
  have hbegun := Ledger.begun_play .empty journal
  rw [hplayed] at hbegun
  have hruns : s.runs = (invocations journal).reverse := hbegun.trans (List.append_nil _)
  constructor
  · exact htold
  · exact hnotes
  · exact congrArg Ledger.table hplayed
  · rintro earlier moment later rfl
    obtain ⟨hmove, hsound⟩ := hlawful.move Ledger.sound_empty
    exact hmove.length_changed_le hsound
  · rw [htold]
    exact (recorded_changesOf hlawful).course
  · rintro earlier moment later rfl before hbefore after hafter hid hretryable hpending
    exact cause_of_renewed hlawful hbefore hafter hid hretryable hpending
  · rw [hruns, List.reverse_reverse]
  · rintro earlier later rfl id
    exact launches_take_turns hlawful id
  · intro id
    have hcount := hlawful.count_inProgress Ledger.sound_empty id
    rw [hplayed, howed] at hcount
    rw [htold, hruns, List.count_reverse]
    exact hcount
  · exact ⟨h.fits.sound.unique, fun id hid => exists_work h hid⟩
  · rintro earlier segment later rfl task htask hcause
    exact count_invocations_le_maxAttempts hlawful (htold ▸ htask) hcause
  · rintro earlier segment later id table rfl hcause
    have hfirst := (Ledger.lawful_append.mp hlawful).1
    obtain ⟨hearlier, hsegment⟩ := Ledger.lawful_append.mp hfirst
    exact hsegment.count_invocations_of_cancel (hearlier.sound Ledger.sound_empty) hcause
  · exact fun id => cancel_accepted
  · exact fun id => cancel_refused
  · exact fun id task => retry_accepted
  · exact fun id e => retry_refused

-- A task that is under way cannot be cancelled.
theorem faithful_cancel_refused :
    let s := enqueueFirst {} () ⟨"a", .unknown, none, none, none⟩ fun _ => .finish .succeeded
    Faithful ((Scheduler.start {} () []).enqueueMoments ⟨"a", .unknown, none, none, none⟩
      (fun _ => .finish .succeeded) ++ s.cancelMoments "a") (s.cancel "a").1 :=
  ((Run.enqueueFirst {} () ⟨"a", .unknown, none, none, none⟩ fun _ => .finish .succeeded).step
    (.cancel _ "a")).faithful

end Scheduler

end LivePreview.Retry
