import LivePreview.Proofs.Scheduling.Discipline
import LivePreview.Proofs.Scheduling.Jobs

namespace LivePreview.Retry

variable {ω : Type}

-- The job goes on with work that has the name held.
def Job.Holds (name : String) : Job ω → Prop
  | .resume _ work => ∃ naps, work.Holding name naps
  | _ => False

-- The job does not go on with work that was begun.
def Job.IsFresh : Job ω → Prop
  | .resume _ _ => False
  | _ => True

namespace Scheduler

variable {s s' : Scheduler ω} {name : String} {job : Job ω}

theorem mem_jobs : job ∈ s.jobs ↔
    job ∈ s.ready ∨ job ∈ s.alarms.map Prod.snd ∨ ∃ entry ∈ s.held, job ∈ entry.2 := by
  simp only [jobs, Multiset.mem_add, Multiset.mem_coe, List.mem_flatMap, or_assoc]

theorem mem_alarms_alarm (due : Nat) (other : Job ω) :
    job ∈ (s.alarm due other).alarms.map Prod.snd ↔ job = other ∨ job ∈ s.alarms.map Prod.snd := by
  have hperm := (insertAlarm_perm due other s.alarms).map Prod.snd
  exact hperm.mem_iff.trans List.mem_cons

theorem mem_of_lookup {held : List (String × List (Job ω))} {waiting : List (Job ω)}
    (h : held.lookup name = some waiting) : (name, waiting) ∈ held := by
  obtain ⟨left, right, rfl, _⟩ := List.lookup_eq_some_iff.mp h
  exact List.mem_append_right _ List.mem_cons_self

theorem mem_heldWith {held : List (String × List (Job ω))} {waiting : List (Job ω)}
    {entry : String × List (Job ω)} (h : entry ∈ heldWith held name waiting) :
    entry = (name, waiting) ∨ (entry ∈ held ∧ entry.1 ≠ name) := by
  obtain ⟨old, hold, he⟩ := List.mem_map.mp h
  by_cases hname : old.1 = name
  · rw [if_pos (beq_iff_eq.mpr hname)] at he
    exact .inl he.symm
  · rw [if_neg (by simpa using hname)] at he
    exact .inr ⟨he ▸ hold, he ▸ hname⟩

-- Work that wants a name goes on with it, or waits for it.
theorem perform_hold_free (id : String) (next : Work ω) (h : s.held.lookup name = none) :
    perform id (.hold name next) s = perform id next { s with held := (name, []) :: s.held } := by
  rw [perform]
  simp only [h]

theorem perform_hold_taken (id : String) (next : Work ω) {waiting : List (Job ω)}
    (h : s.held.lookup name = some waiting) :
    perform id (.hold name next) s =
      { s with held := heldWith s.held name (waiting ++ [.resume id next]) } := by
  rw [perform]
  simp only [h]
  rfl

-- Whoever holds a name is ready or asleep, and so lets it go in the end; `mine` is the name that is
-- held by work in hand. Those who wait for a name go on with it held. All work keeps an invariant.
structure Disciplined (Inv : List (String × Outcome) → ω → Prop) (most : Nat) (mine : Option String)
    (s : Scheduler ω) : Prop where
  quiet : s.reactions = []
  room : 0 < s.settings.concurrency
  works : ∀ entry ∈ s.works, ∀ number, 1 ≤ number → number ≤ most →
    (entry.2 number).Orderly ∧ (entry.2 number).Keeps Inv entry.1
  resumes : ∀ id work, .resume id work ∈ s.jobs →
    (∃ name naps, work.Holding name naps) ∧ work.Keeps Inv id
  waiting : ∀ entry ∈ s.held, ∀ job ∈ entry.2, job.Holds entry.1
  holders : ∀ entry ∈ s.held, mine = some entry.1 ∨
    ∃ job, (job ∈ s.ready ∨ job ∈ s.alarms.map Prod.snd) ∧ job.Holds entry.1

namespace Disciplined

variable {Inv : List (String × Outcome) → ω → Prop} {most : Nat} {mine : Option String}

-- More jobs that do not go on with work bear on no name.
theorem extend (h : s.Disciplined Inv most mine) {more : List (Job ω)}
    (hreactions : s'.reactions = s.reactions) (hsettings : s'.settings = s.settings)
    (hworks : s'.works = s.works) (hheld : s'.held = s.held) (halarms : s'.alarms = s.alarms)
    (hready : s'.ready = s.ready ++ more) (hmore : ∀ job ∈ more, job.IsFresh) :
    s'.Disciplined Inv most mine := by
  constructor
  · exact hreactions.trans h.quiet
  · exact hsettings ▸ h.room
  · exact hworks ▸ h.works
  · intro id work hmem
    refine h.resumes id work (mem_jobs.mpr ?_)
    rw [mem_jobs, hready, hheld, halarms, List.mem_append] at hmem
    exact hmem.imp_left fun hm => hm.resolve_right fun hm => hmore _ hm
  · exact hheld ▸ h.waiting
  · intro entry hentry
    refine (h.holders entry (hheld ▸ hentry)).imp_right ?_
    rintro ⟨job, hmem, hholds⟩
    refine ⟨job, ?_, hholds⟩
    rw [hready, halarms]
    exact hmem.imp_left fun hm => List.mem_append_left _ hm

-- The queue and the world have no say.
theorem congr (h : s.Disciplined Inv most mine) (hreactions : s'.reactions = s.reactions)
    (hsettings : s'.settings = s.settings) (hworks : s'.works = s.works) (hheld : s'.held = s.held)
    (halarms : s'.alarms = s.alarms) (hready : s'.ready = s.ready) :
    s'.Disciplined Inv most mine :=
  h.extend hreactions hsettings hworks hheld halarms (hready.trans (List.append_nil _).symm)
    fun _ hm => absurd hm List.not_mem_nil

-- A job that is taken from those that are ready may be the one that holds a name.
theorem take (h : s.Disciplined Inv most none) {later : List (Job ω)}
    (hready : s.ready = job :: later) (hmine : ∀ name, job.Holds name → mine = some name) :
    { s with ready := later }.Disciplined Inv most mine := by
  refine ⟨h.quiet, h.room, h.works, ?_, h.waiting, ?_⟩
  · intro id work hmem
    refine h.resumes id work (mem_jobs.mpr ((mem_jobs.mp hmem).imp_left fun hm => ?_))
    rw [hready]
    exact List.mem_cons_of_mem _ hm
  · intro entry hentry
    obtain hnone | ⟨holder, hmem, hholds⟩ := h.holders entry hentry
    · cases hnone
    · by_cases hsame : holder = job
      · exact .inl (hmine _ (hsame ▸ hholds))
      · refine .inr ⟨holder, hmem.imp_left fun hm => ?_, hholds⟩
        rw [hready] at hm
        exact (List.mem_cons.mp hm).resolve_left hsame

theorem release (h : s.Disciplined Inv most (some name)) :
    (s.release name).Disciplined Inv most none := by
  unfold Scheduler.release
  split
  · rename_i job jobs hlookup
    have hentry : (name, job :: jobs) ∈ s.held := mem_of_lookup hlookup
    have hmem : ∀ entry, entry ∈ heldWith s.held name jobs →
        entry = (name, jobs) ∨ (entry ∈ s.held ∧ entry.1 ≠ name) := fun _ => mem_heldWith
    unfold heldWith at hmem
    refine ⟨h.quiet, h.room, h.works, ?_, ?_, ?_⟩
    · intro id work hm
      refine h.resumes id work (mem_jobs.mpr ?_)
      rcases mem_jobs.mp hm with hm | hm | ⟨entry, he, hm⟩
      · rcases List.mem_append.mp hm with hm | hm
        · exact .inl hm
        · exact .inr (.inr ⟨_, hentry, List.mem_singleton.mp hm ▸ List.mem_cons_self⟩)
      · exact .inr (.inl hm)
      · rcases hmem entry he with rfl | ⟨he, _⟩
        · exact .inr (.inr ⟨_, hentry, List.mem_cons_of_mem _ hm⟩)
        · exact .inr (.inr ⟨entry, he, hm⟩)
    · intro entry he other hother
      rcases hmem entry he with rfl | ⟨he, _⟩
      · exact h.waiting _ hentry other (List.mem_cons_of_mem _ hother)
      · exact h.waiting entry he other hother
    · intro entry he
      refine .inr ?_
      rcases hmem entry he with rfl | ⟨he, hne⟩
      · exact ⟨job, .inl (List.mem_append_right _ (List.mem_singleton_self job)),
          h.waiting _ hentry job List.mem_cons_self⟩
      · obtain hmine | ⟨holder, hm, hholds⟩ := h.holders entry he
        · exact absurd (Option.some.inj hmine).symm hne
        · exact ⟨holder, hm.imp_left fun hm => List.mem_append_left _ hm, hholds⟩
  · refine ⟨h.quiet, h.room, h.works, ?_, ?_, ?_⟩
    · intro id work hm
      refine h.resumes id work (mem_jobs.mpr ((mem_jobs.mp hm).imp_right fun hm => ?_))
      exact hm.imp_right fun ⟨entry, he, hm⟩ => ⟨entry, (List.mem_filter.mp he).1, hm⟩
    · exact fun entry he => h.waiting entry (List.mem_filter.mp he).1
    · intro entry he
      obtain ⟨he, hne⟩ := List.mem_filter.mp he
      refine (h.holders entry he).imp_left fun hmine => ?_
      exact absurd (Option.some.inj hmine).symm (bne_iff_ne.mp hne)

-- Work goes to sleep with its name held.
theorem nap (h : s.Disciplined Inv most (some name)) {id : String} {work : Work ω} {naps : Nat}
    (hholds : work.Holding name naps) (hkeeps : work.Keeps Inv id) (due : Nat) :
    (s.alarm due (.resume id work)).Disciplined Inv most none := by
  refine ⟨h.quiet, h.room, h.works, ?_, h.waiting, ?_⟩
  · intro other next hm
    rw [jobs_alarm, Multiset.mem_cons] at hm
    rcases hm with he | hm
    · obtain ⟨rfl, rfl⟩ := Job.resume.inj he
      exact ⟨⟨name, naps, hholds⟩, hkeeps⟩
    · exact h.resumes other next hm
  · intro entry he
    refine .inr ?_
    obtain hmine | ⟨holder, hm, hh⟩ := h.holders entry he
    · refine ⟨.resume id work, .inr ((mem_alarms_alarm due _).mpr (.inl rfl)), ?_⟩
      exact Option.some.inj hmine ▸ ⟨naps, hholds⟩
    · exact ⟨holder, hm.imp_right fun hm => (mem_alarms_alarm due _).mpr (.inr hm), hh⟩

theorem alarm (h : s.Disciplined Inv most none) (due : Nat) (hfresh : job.IsFresh) :
    (s.alarm due job).Disciplined Inv most none := by
  refine ⟨h.quiet, h.room, h.works, ?_, h.waiting, ?_⟩
  · intro id work hm
    rw [jobs_alarm, Multiset.mem_cons] at hm
    exact h.resumes id work (hm.resolve_left fun he => by rw [← he] at hfresh; exact hfresh)
  · intro entry he
    refine (h.holders entry he).imp_right ?_
    rintro ⟨holder, hm, hh⟩
    exact ⟨holder, hm.imp_right fun hm => (mem_alarms_alarm due _).mpr (.inr hm), hh⟩

-- A name that nobody holds is held by the work in hand.
theorem hold (h : s.Disciplined Inv most none) (name : String) :
    { s with held := (name, []) :: s.held }.Disciplined Inv most (some name) := by
  refine ⟨h.quiet, h.room, h.works, ?_, ?_, ?_⟩
  · intro id work hm
    refine h.resumes id work (mem_jobs.mpr ((mem_jobs.mp hm).imp_right fun hm => ?_))
    refine hm.imp_right fun ⟨entry, he, hm⟩ => ?_
    rcases List.mem_cons.mp he with rfl | he
    · cases hm
    · exact ⟨entry, he, hm⟩
  · intro entry he other hother
    rcases List.mem_cons.mp he with rfl | he
    · cases hother
    · exact h.waiting entry he other hother
  · intro entry he
    rcases List.mem_cons.mp he with rfl | he
    · exact .inl rfl
    · exact .inr ((h.holders entry he).resolve_left (by simp))

-- Work that wants a name that is held waits for it.
theorem wait (h : s.Disciplined Inv most none) {waiting : List (Job ω)}
    (hlookup : s.held.lookup name = some waiting) {id : String} {work : Work ω} {naps : Nat}
    (hholds : work.Holding name naps) (hkeeps : work.Keeps Inv id) :
    { s with held := heldWith s.held name (waiting ++ [Job.resume id work]) }.Disciplined Inv most
      none := by
  have hentry : (name, waiting) ∈ s.held := mem_of_lookup hlookup
  refine ⟨h.quiet, h.room, h.works, ?_, ?_, ?_⟩
  · intro other next hm
    rcases mem_jobs.mp hm with hm | hm | ⟨entry, he, hm⟩
    · exact h.resumes other next (mem_jobs.mpr (.inl hm))
    · exact h.resumes other next (mem_jobs.mpr (.inr (.inl hm)))
    · rcases mem_heldWith he with rfl | ⟨he, _⟩
      · rcases List.mem_append.mp hm with hm | hm
        · exact h.resumes other next (mem_jobs.mpr (.inr (.inr ⟨_, hentry, hm⟩)))
        · obtain ⟨rfl, rfl⟩ := Job.resume.inj (List.mem_singleton.mp hm)
          exact ⟨⟨name, naps, hholds⟩, hkeeps⟩
      · exact h.resumes other next (mem_jobs.mpr (.inr (.inr ⟨entry, he, hm⟩)))
  · intro entry he other hother
    rcases mem_heldWith he with rfl | ⟨he, _⟩
    · rcases List.mem_append.mp hother with hm | hm
      · exact h.waiting _ hentry other hm
      · obtain rfl := List.mem_singleton.mp hm
        exact ⟨naps, hholds⟩
    · exact h.waiting entry he other hother
  · intro entry he
    rcases mem_heldWith he with rfl | ⟨he, _⟩
    · exact h.holders (name, waiting) hentry
    · exact h.holders entry he

theorem advanceTo (h : s.Disciplined Inv most none) (time : Nat) :
    (s.advanceTo time).Disciplined Inv most none := by
  have hmem : ∀ job, (job ∈ (s.advanceTo time).ready ∨
      job ∈ (s.advanceTo time).alarms.map Prod.snd) ↔
      (job ∈ s.ready ∨ job ∈ s.alarms.map Prod.snd) := by
    intro job
    have hsplit := congrArg (List.map Prod.snd)
      (List.takeWhile_append_dropWhile (p := fun alarm : Nat × Job ω => alarm.1 ≤ time)
        (l := s.alarms))
    rw [← hsplit, List.map_append, List.mem_append, ← or_assoc]
    exact or_congr_left List.mem_append
  refine ⟨h.quiet, h.room, h.works, ?_, h.waiting, ?_⟩
  · intro id work hm
    refine h.resumes id work (mem_jobs.mpr ?_)
    rw [← or_assoc, ← hmem, or_assoc]
    exact mem_jobs.mp hm
  · intro entry he
    obtain hnone | ⟨holder, hm, hh⟩ := h.holders entry he
    · cases hnone
    · exact .inr ⟨holder, (hmem holder).mpr hm, hh⟩

-- When nothing is ready and nobody sleeps, nobody holds a name and nobody waits for one.
theorem jobs_eq_zero (h : s.Disciplined Inv most none) (hready : s.ready = [])
    (halarms : s.alarms = []) : s.jobs = 0 := by
  have hheld : s.held = [] := by
    refine List.eq_nil_iff_forall_not_mem.mpr fun entry he => ?_
    obtain hnone | ⟨holder, hm, _⟩ := h.holders entry he
    · cases hnone
    · simp [hready, halarms] at hm
  simp [jobs, hready, halarms, hheld]

end Disciplined

end Scheduler

end LivePreview.Retry
