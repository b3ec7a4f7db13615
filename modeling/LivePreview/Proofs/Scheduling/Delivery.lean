import LivePreview.Proofs.Scheduling.Operations

namespace LivePreview.Retry

variable {ω : Type}

-- The task of which an event tells observers.
def Event.told? : Event → Option Task
  | .status task _ => some task
  | _ => none

-- The event tells that the work of a task was begun; that is no notice to observers.
def Event.isRun : Event → Bool
  | .run _ _ _ => true
  | _ => false

namespace Scheduler

-- The tasks of which observers were told, as they were told, in order.
def told (s : Scheduler ω) : List Task := s.events.filterMap Event.told?

-- What observers were told and what is still noted for them.
def heard (s : Scheduler ω) : List Task := s.told ++ s.queue.untold

-- What the scheduler does beside its queue: work, time and jobs go on, and observers are told
-- nothing.
structure Beside (s s' : Scheduler ω) : Prop where
  settings : s'.settings = s.settings
  queue : s'.queue = s.queue
  works : s'.works = s.works
  reactions : s'.reactions = s.reactions
  events : s'.events.filter (!·.isRun) = s.events.filter (!·.isRun)

theorem Beside.trans {s s' s'' : Scheduler ω} (first : Beside s s') (second : Beside s' s'') :
    Beside s s'' :=
  ⟨second.settings.trans first.settings, second.queue.trans first.queue,
    second.works.trans first.works, second.reactions.trans first.reactions,
    second.events.trans first.events⟩

theorem beside_release (s : Scheduler ω) (name : String) :
    Beside s (s.release name) ∧ (s.release name).runs = s.runs := by
  unfold release
  split <;> exact ⟨⟨rfl, rfl, rfl, rfl, rfl⟩, rfl⟩

theorem Beside.told_eq {s s' : Scheduler ω} (h : Beside s s') : s'.told = s.told := by
  have hquiet : ∀ s : Scheduler ω,
      s.told = (s.events.filter (!·.isRun)).filterMap Event.told? := by
    intro s
    rw [told, List.filterMap_filter]
    congr 1
    funext event
    cases event <;> rfl
  rw [hquiet s', hquiet s, h.events]

-- The jobs in hand are those that an operation has taken and not yet given back.
def situation (s : Scheduler ω) (hand : Multiset (Job ω)) : Situation ω :=
  ⟨s.queue, s.works.map Prod.fst, s.runs, hand + s.jobs⟩

theorem jobs_situation_cons (s : Scheduler ω) (job : Job ω) (hand : Multiset (Job ω)) :
    (s.situation (job ::ₘ hand)).jobs = job ::ₘ (hand + s.jobs) :=
  Multiset.cons_add _ _ _

structure Coherent (s : Scheduler ω) (hand : Multiset (Job ω)) : Prop where
  fits : (s.situation hand).Coherent s.settings
  names : (s.held.map Prod.fst).Nodup

-- What an operation makes of a scheduler with the writes that it makes: each of them is lawful, and
-- what observers hear meanwhile are the changes made by them.
structure Leads (s : Scheduler ω) (hand : Multiset (Job ω)) (moments : List Moment)
    (s' : Scheduler ω) (hand' : Multiset (Job ω)) : Prop where
  lawful : (s.situation hand).ledger.Lawful s.settings moments
  played : (s.situation hand).ledger.play moments = (s'.situation hand').ledger
  heard : s'.heard = s.heard ++ changesAlong s.queue.tasks moments
  settings : s'.settings = s.settings
  coherent : s'.Coherent hand'

section

variable {s s' s'' : Scheduler ω} {hand hand' hand'' : Multiset (Job ω)}
  {moments later : List Moment}

theorem Leads.trans (first : s.Leads hand moments s' hand')
    (second : s'.Leads hand' later s'' hand'') : s.Leads hand (moments ++ later) s'' hand'' := by
  constructor
  · have hlater := second.lawful
    rw [first.settings, ← first.played] at hlater
    exact Ledger.lawful_append.mpr ⟨first.lawful, hlater⟩
  · rw [Ledger.play_append, first.played, second.played]
  · have htable : s'.queue.tasks = ((s.situation hand).ledger.play moments).table := by
      rw [first.played]
      rfl
    have hsplit := changesAlong_append (s.situation hand).ledger moments later
    rw [← htable] at hsplit
    rw [second.heard, first.heard, List.append_assoc]
    exact congrArg (s.heard ++ ·) hsplit.symm
  · exact second.settings.trans first.settings
  · exact second.coherent

theorem Leads.refl (h : s.Coherent hand) : s.Leads hand [] s hand :=
  ⟨trivial, rfl, by simp [changesAlong], rfl, h⟩

-- What a queue with its jobs goes through, the scheduler goes through, if it tells nothing
-- meanwhile.
theorem Coherent.lift (h : s.Coherent hand)
    (hleads : (s.situation hand).Leads s.settings moments (s'.situation hand'))
    (hsettings : s'.settings = s.settings) (htold : s'.told = s.told) (hheld : s'.held = s.held) :
    s.Leads hand moments s' hand' := by
  refine ⟨hleads.lawful, hleads.played, ?_, hsettings, ⟨hsettings ▸ hleads.coherent, ?_⟩⟩
  · have huntold : s'.queue.untold = s.queue.untold ++ changesAlong s.queue.tasks moments :=
      hleads.untold
    rw [Scheduler.heard, Scheduler.heard, htold, huntold, List.append_assoc]
  · rw [hheld]
    exact h.names

-- What does not bear on the table, the counters and the kinds of the jobs may change.
theorem Coherent.leads_nil (h : s.Coherent hand) (htasks : s'.queue.tasks = s.queue.tasks)
    (hactive : s'.queue.active = s.queue.active) (hcreated : s'.queue.created = s.queue.created)
    (hnumber : s'.queue.timers = s.queue.timers) (hheard : s'.heard = s.heard)
    (hworks : s'.works = s.works) (hbegun : s'.runs = s.runs) (hsettings : s'.settings = s.settings)
    (hnames : (s'.held.map Prod.fst).Nodup) (hkinds : SameKinds (hand + s.jobs) (hand' + s'.jobs)) :
    s.Leads hand [] s' hand' := by
  -- the notes may differ, so the way goes through a situation with the old ones
  have hquiet := h.fits.leads_nil (y := ⟨{ s'.queue with notes := s.queue.notes },
    s'.works.map Prod.fst, s'.runs, hand' + s'.jobs⟩) htasks hactive hcreated hnumber rfl
    (congrArg (·.map Prod.fst) hworks) hbegun hkinds
  obtain ⟨_, hplayed, _, hcoherent⟩ := hquiet
  refine ⟨trivial, hplayed, by simp [changesAlong, hheard], hsettings, ⟨?_, hnames⟩⟩
  rw [hsettings]
  exact ⟨hcoherent.sound, hcoherent.running, hcoherent.active, hcoherent.within, hcoherent.created,
    hcoherent.numbers, hcoherent.distinct, hcoherent.delays, hcoherent.armed⟩

theorem Coherent.leads_beside (h : s.Coherent hand) (hbeside : Beside s s')
    (hruns : s'.runs = s.runs) (hnames : (s'.held.map Prod.fst).Nodup)
    (hkinds : SameKinds (hand + s.jobs) (hand' + s'.jobs)) : s.Leads hand [] s' hand' := by
  have hqueue := hbeside.queue
  have hheard : s'.heard = s.heard := by rw [heard, heard, hbeside.told_eq, hqueue]
  exact h.leads_nil (by rw [hqueue]) (by rw [hqueue]) (by rw [hqueue]) (by rw [hqueue]) hheard
    hbeside.works hruns hbeside.settings hnames hkinds

-- Jobs that are made ready are no longer in hand.
theorem Coherent.leads_ready (h : s.Coherent hand) (ready : List (Job ω))
    (hhand : hand = (ready : Multiset (Job ω)) + hand') :
    s.Leads hand [] { s with ready := s.ready ++ ready } hand' := by
  subst hhand
  have hjobs : hand' + jobs { s with ready := s.ready ++ ready } =
      (ready : Multiset (Job ω)) + hand' + s.jobs := by
    rw [jobs_ready_append, add_left_comm, add_assoc]
  exact h.leads_beside ⟨rfl, rfl, rfl, rfl, rfl⟩ rfl h.names (.of_eq hjobs)

end

@[simp] theorem told_log (s : Scheduler ω) (event : Event) :
    (s.log event).told = s.told ++ (Event.told? event).toList := by
  cases event <;> simp [told, log, Event.told?]

section Calls

variable {s : Scheduler ω} {hand : Multiset (Job ω)}

-- The queue may go on by itself; an event that tells of no task may be noted as well.
theorem Coherent.leads_queue (h : s.Coherent hand) {queue : Queue} {moments : List Moment}
    (hleads : (s.situation hand).Leads s.settings moments
      { s.situation hand with queue := queue }) :
    s.Leads hand moments { s with queue := queue } hand :=
  h.lift hleads rfl rfl rfl

theorem Coherent.leads_log (h : s.Coherent hand) (event : Event) (hquiet : event.told? = none) :
    s.Leads hand [] (s.log event) hand :=
  h.lift (Situation.Leads.refl h.fits) rfl (by simp [hquiet]) rfl

-- The attempts launched are in hand until they are made ready.
theorem Coherent.leads_queue_launch (h : s.Coherent hand) :
    s.Leads hand (s.queue.launchMoments s.settings)
      { s with queue := (s.queue.launch s.settings).1 }
      ((((s.queue.launch s.settings).2.map Job.attempt : List (Job ω)) : Multiset (Job ω)) +
        hand) := by
  refine h.lift ?_ rfl rfl rfl
  have hlaunch := h.fits.leads_launch
  simp only [situation, jobs, add_assoc] at hlaunch ⊢
  exact hlaunch

theorem Coherent.leads_launchQuietly (h : s.Coherent hand) :
    s.Leads hand (s.queue.launchMoments s.settings) s.launchQuietly hand := by
  have hlaunch := h.leads_queue_launch
  have hready := hlaunch.trans (hlaunch.coherent.leads_ready _ rfl)
  rw [List.append_nil] at hready
  exact hready

-- The call of an observer makes the writes of its operation, and tells observers nothing yet.
theorem Coherent.leads_carryOut (h : s.Coherent hand) (call : Call) (target : String) :
    s.Leads hand (s.callMoments call target) (s.carryOut call target) hand := by
  have hlogged : ∀ {s' : Scheduler ω} {moments : List Moment} (result : CallResult),
      s.Leads hand moments s' hand →
        s.Leads hand moments (s'.log (.reacted call target result)) hand := by
    intro s' moments result hleads
    have hlog := hleads.trans (hleads.coherent.leads_log (.reacted call target result) rfl)
    rw [List.append_nil] at hlog
    exact hlog
  cases call with
  | cancel =>
      simp only [callMoments, carryOut]
      cases hcancel : s.queue.cancel? target with
      | none => exact hlogged _ (.refl h)
      | some queue => exact hlogged _ (h.leads_queue (h.fits.leads_cancel hcancel))
  | cancelAll => exact hlogged _ (h.leads_queue h.fits.leads_cancelAll)
  | prune => exact hlogged _ (h.leads_queue h.fits.leads_prune)
  | stats | isIdle | get => exact hlogged _ (.refl h)
  | retry =>
      simp only [callMoments, carryOut]
      cases hretry : s.queue.retry target with
      | error e => exact hlogged _ (.refl h)
      | ok result =>
          have hrenew := h.leads_queue (h.fits.leads_retry hretry)
          exact hlogged _ (hrenew.trans hrenew.coherent.leads_launchQuietly)

theorem Coherent.leads_react (h : s.Coherent hand) (note : Note) (due : List Reaction) :
    s.Leads hand (reactMoments note s due) (s.react note due) hand := by
  induction due generalizing s with
  | nil => exact .refl h
  | cons reaction due ih =>
      have hcall := h.leads_carryOut reaction.call (reaction.target note)
      exact hcall.trans (ih hcall.coherent)

-- A note becomes an event: observers hear of it what they would have heard.
theorem Coherent.leads_announce (h : s.Coherent hand) {note : Note} {rest : List Note}
    (hnotes : s.queue.notes = note :: rest) (reactions : List Reaction) :
    s.Leads hand [] ({ s.withNotes rest with reactions := reactions }.announce note) hand := by
  cases note with
  | status task =>
      refine h.leads_nil rfl rfl rfl rfl ?_ rfl rfl rfl h.names (.of_eq rfl)
      simp [heard, told, announce, log, withNotes, Queue.untold, hnotes, Event.told?, Note.told?]
  | drained =>
      refine h.leads_nil rfl rfl rfl rfl ?_ rfl rfl rfl h.names (.of_eq rfl)
      simp [heard, told, announce, log, withNotes, Queue.untold, hnotes, List.filterMap_cons,
        Event.told?, Note.told?]

theorem Coherent.leads_releaseCaller (h : s.Coherent hand) (note : Note) :
    s.Leads hand [] (s.releaseCaller note) hand := by
  cases note with
  | status task => exact .refl h
  | drained =>
      unfold releaseCaller
      dsimp only
      split
      · have hready : jobs { s with awaited := false, ready := s.ready ++ [.caller] } =
            .caller ::ₘ s.jobs := jobs_ready_append s [.caller]
        refine h.leads_beside ⟨rfl, rfl, rfl, rfl, rfl⟩ rfl h.names ?_
        rw [hready, Multiset.add_cons]
        exact .caller
      · exact .refl h

theorem Coherent.leads_notify (h : s.Coherent hand) {note : Note} {rest : List Note}
    (hnotes : s.queue.notes = note :: rest) :
    s.Leads hand ((s.withNotes rest).notifyMoments note) ((s.withNotes rest).notify note) hand := by
  have hannounced := h.leads_announce hnotes
    ((s.withNotes rest).reactions.map (Reaction.use note))
  have hreacted := hannounced.trans (hannounced.coherent.leads_react note
    ((s.withNotes rest).reactions.filter (Reaction.isDue note)))
  have hreleased := hreacted.trans (hreacted.coherent.leads_releaseCaller note)
  rw [List.append_nil] at hreleased
  exact hreleased

-- Observers are told of all notes, of those that their own calls cause too.
theorem Coherent.leads_notifyAll (h : s.Coherent hand) :
    s.Leads hand s.notifyAllMoments s.notifyAll hand := by
  induction s using notifyAll.induct with
  | case1 s hnotes =>
      rw [notifyAllMoments_of_nil hnotes, notifyAll_of_nil hnotes]
      exact .refl h
  | case2 s note rest hnotes ih =>
      rw [notifyAllMoments_of_cons hnotes, notifyAll_of_cons hnotes]
      have hnotify := h.leads_notify hnotes
      exact hnotify.trans (ih hnotify.coherent)

theorem Coherent.leads_launch (h : s.Coherent hand) :
    s.Leads hand s.launchMoments s.launch hand := by
  have hlaunch := h.leads_queue_launch
  have htold := hlaunch.trans hlaunch.coherent.leads_notifyAll
  have hready := htold.trans (htold.coherent.leads_ready _ rfl)
  rw [List.append_nil] at hready
  exact hready

theorem Coherent.leads_launchAfter (h : s.Coherent hand) :
    s.Leads hand s.launchAfterMoments s.notifyAll.launch hand := by
  have htold := h.leads_notifyAll
  exact htold.trans htold.coherent.leads_launch

end Calls

end Scheduler

end LivePreview.Retry
