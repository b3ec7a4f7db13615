import LivePreview.Proofs.Healing.Rounds

namespace LivePreview.Healing

open Retry

variable {ρ : Type} {healer : Healer ρ} {options : BundleOptions} {files : Sources}

-- What is true of healing between two rounds.
structure Progress.Accounted (healer : Healer ρ) (options : BundleOptions) (files : Sources)
    (progress : Progress Bool ρ) : Prop where
  linker : progress.workspace.bundler.IsLinker options
  built : progress.workspace.built =
    ((Bundler.onLinker options).bundle progress.workspace.files).1
  kept : progress.workspace.files.paths = files.paths
  stats : progress.stats.Settled
  fixes : progress.workspace.fixes.length = progress.stats.succeeded
  each : ∀ fix ∈ progress.workspace.fixes, 1 ≤ fix.round ∧ fix.round ≤ progress.rounds ∧
    1 ≤ fix.attempts ∧ fix.attempts ≤ healer.scheduler.maxAttempts ∧ fix.target ∈ files.paths

-- What a report says agrees with the files that it is about.
structure Report.Accurate (healer : Healer ρ) (options : BundleOptions) (files : Sources)
    (report : Report) : Prop where
  kept : report.files.paths = files.paths
  result : report.result = ((Bundler.onLinker options).bundle report.files).1
  success : report.success = report.result.success
  -- The paths in the list of changes are in order, and each of them stands there once.
  ascending : report.modified.Pairwise (· < ·)
  modified : ∀ path, path ∈ report.modified ↔
    path ∈ files.paths ∧ report.files.get? path ≠ files.get? path
  rounds : report.rounds ≤ healer.options.maxRounds
  stats : report.stats.Settled
  fixes : report.fixes.length = report.stats.succeeded
  each : ∀ fix ∈ report.fixes, 1 ≤ fix.round ∧ fix.round ≤ report.rounds ∧
    1 ≤ fix.attempts ∧ fix.attempts ≤ healer.scheduler.maxAttempts ∧ fix.target ∈ files.paths
  remaining : report.success = true → report.remaining = []

theorem Healer.target?_mem {files : Sources} {result : BundleResult} {diagnosis : Diagnosis}
    {target : String} (h : Healer.target? files result diagnosis = some target) :
    target ∈ files.paths := by
  unfold target? at h
  rcases Option.or_eq_some_iff.mp h with h | ⟨_, h⟩
  · obtain ⟨path, _, hpath⟩ := Option.bind_eq_some_iff.mp h
    exact (Sources.spelling?_eq_some hpath).1
  · obtain ⟨entry, _, hentry⟩ := Option.bind_eq_some_iff.mp h
    exact (Sources.spelling?_eq_some hentry).1

theorem Healer.mem_paths_of_mem_plan {σ : Type} {workspace : Workspace σ ρ}
    {part : Diagnosis × String} (h : part ∈ healer.plan workspace) :
    part.2 ∈ workspace.files.paths := by
  obtain ⟨diagnosis, _, hsome⟩ := List.mem_filterMap.mp h
  obtain ⟨target, htarget, hpart⟩ := Option.bind_eq_some_iff.mp hsome
  split at hpart
  · obtain rfl := Option.some.inj hpart
    exact target?_mem htarget
  · cases hpart

-- A round is made only with settings with which nothing is wrong.
theorem Healer.nextPlan_eq_ok {σ : Type} {workspace : Workspace σ ρ}
    {plan : List (Diagnosis × String)} (h : healer.nextPlan workspace = .ok plan)
    (hplan : plan ≠ []) : healer.scheduler.problem? = none ∧ healer.plan workspace = plan := by
  unfold nextPlan at h
  split at h
  · exact absurd (Except.ok.inj h).symm hplan
  split at h
  · exact absurd (Except.ok.inj h).symm hplan
  split at h
  · cases h
  · rename_i hsettings
    exact ⟨hsettings, Except.ok.inj h⟩

namespace Progress.Accounted

variable {progress : Progress Bool ρ}

theorem start (healer : Healer ρ) (options : BundleOptions) (service : ρ) (files : Sources) :
    Accounted healer options files
      ⟨0, .ofFiles (Bundler.onLinker options) service files, .ofTasks []⟩ := by
  refine ⟨?_, rfl, rfl, ⟨rfl, rfl, rfl, rfl, rfl⟩, rfl, by simp [Workspace.ofFiles]⟩
  exact (Bundler.bundle_linker (Bundler.isLinker_onLinker options) files).2

-- A round adds its fixes and its counts to those before.
theorem carryOut (h : progress.Accounted healer options files)
    (hsettings : healer.scheduler.problem? = none) (plan : List (Diagnosis × String))
    (hplan : ∀ part ∈ plan, part.2 ∈ files.paths) :
    (healer.carryOut progress plan).Accounted healer options files := by
  have hinv : Mended options files.paths progress.workspace.fixes (progress.rounds + 1)
      healer.scheduler.maxAttempts [] progress.workspace :=
    ⟨h.linker, h.kept, [], (List.append_nil _).symm, rfl, by simp⟩
  obtain ⟨ended, hdone, hstats, hsucceeded, _, _⟩ := Healer.carried_out healer hsettings hinv
    (progress.rounds + 1) plan fun index part hpart number hfirst hlast =>
      (Attempt.closed_mended healer.service ⟨progress.rounds + 1, part.1, part.2, number⟩
        (toString index) (hplan part (List.mem_of_getElem? hpart)) hfirst hlast).keeps_work
  obtain ⟨fixes, happend, hlength, heach⟩ := hdone.fixes
  unfold Healer.carryOut
  dsimp only
  generalize (healer.enqueueAll (progress.rounds + 1) 0 plan
    (.start healer.scheduler progress.workspace [])).waitIdle = rest at *
  obtain ⟨hpending, hprogress, hwaiting, hcancelled, htotal⟩ := h.stats
  refine ⟨(Bundler.bundle_linker hdone.linker rest.world.files).2,
    Bundler.bundle_eq_onLinker hdone.linker rest.world.files, hdone.kept, ?_, ?_, ?_⟩
  · refine ⟨hpending, hprogress, hwaiting, ?_, ?_⟩
    · simp only [Healer.addStats, hcancelled, hstats.cancelled]
    · simp only [Healer.addStats, htotal, hstats.total]
      omega
  · simp only [Workspace.bundle, happend, List.length_append, Healer.addStats, h.fixes, hlength,
      hsucceeded]
  · intro fix hm
    simp only [Workspace.bundle, happend, List.mem_append] at hm
    rcases hm with hm | hm
    · obtain ⟨hfirst, hround, hrest⟩ := h.each fix hm
      exact ⟨hfirst, Nat.le_succ_of_le hround, hrest⟩
    · obtain ⟨hround, hrest⟩ := heach fix hm
      exact ⟨hround ▸ Nat.succ_pos _, hround.le, hrest⟩

theorem makeRounds (rounds : Nat) (h : progress.Accounted healer options files)
    {after : Progress Bool ρ} (hafter : healer.makeRounds rounds progress = .ok after) :
    after.Accounted healer options files ∧ after.rounds ≤ progress.rounds + rounds := by
  induction rounds generalizing progress with
  | zero =>
      unfold Healer.makeRounds at hafter
      obtain rfl := Except.ok.inj hafter
      exact ⟨h, Nat.le_add_right _ _⟩
  | succ rounds ih =>
      unfold Healer.makeRounds at hafter
      split at hafter
      · cases hafter
      · obtain rfl := Except.ok.inj hafter
        exact ⟨h, Nat.le_add_right _ _⟩
      · rename_i plan hnext hplan
        obtain ⟨hsettings, rfl⟩ := Healer.nextPlan_eq_ok hplan hnext
        have htargets : ∀ part ∈ healer.plan progress.workspace, part.2 ∈ files.paths :=
          fun part hm => h.kept ▸ Healer.mem_paths_of_mem_plan hm
        obtain ⟨hdone, hrounds⟩ := ih (h.carryOut hsettings _ htargets) hafter
        have hround : (healer.carryOut progress (healer.plan progress.workspace)).rounds =
            progress.rounds + 1 := rfl
        exact ⟨hdone, by omega⟩

end Progress.Accounted

theorem Healer.mem_modified {before after : Sources} {path : String} :
    path ∈ Healer.modified before after ↔
      path ∈ after.paths ∧ after.get? path ≠ before.get? path := by
  rw [modified, List.mem_map, Sources.paths, List.mem_map]
  constructor
  · rintro ⟨⟨path, content⟩, hm, rfl⟩
    obtain ⟨hmem, hne⟩ := List.mem_filter.mp hm
    rw [bne_iff_ne] at hne
    exact ⟨⟨_, hmem, rfl⟩, fun he => hne (he ▸ Sources.get?_eq_some_iff.mpr hmem)⟩
  · rintro ⟨⟨⟨path, content⟩, hmem, rfl⟩, hne⟩
    refine ⟨_, List.mem_filter.mpr ⟨hmem, bne_iff_ne.mpr fun he => hne ?_⟩, rfl⟩
    exact (Sources.get?_eq_some_iff.mpr hmem).trans he.symm

-- A report is made of how far the rounds have come.
theorem Healer.heal_eq_ok {σ : Type} {bundler : Bundler σ} {service : ρ} {report : Report}
    {workspace : Workspace σ ρ} (h : healer.heal bundler service files = .ok (report, workspace)) :
    ∃ progress, healer.makeRounds healer.options.maxRounds
        ⟨0, .ofFiles bundler service files, .ofTasks []⟩ = .ok progress ∧
      report = healer.report files progress := by
  unfold heal at h
  dsimp only at h
  cases hrounds : healer.makeRounds healer.options.maxRounds
      ⟨0, .ofFiles bundler service files, .ofTasks []⟩ with
  | error e =>
      rw [hrounds] at h
      cases h
  | ok progress =>
      rw [hrounds] at h
      exact ⟨progress, rfl, (Prod.mk.inj (Except.ok.inj h)).1.symm⟩

-- With settings with which nothing is wrong the rounds are made.
theorem Healer.exists_makeRounds {σ : Type} (healer : Healer ρ)
    (hsettings : healer.scheduler.problem? = none) (rounds : Nat) (progress : Progress σ ρ) :
    ∃ after, healer.makeRounds rounds progress = .ok after := by
  induction rounds generalizing progress with
  | zero => exact ⟨progress, rfl⟩
  | succ rounds ih =>
      unfold makeRounds
      cases hplan : healer.nextPlan progress.workspace with
      | error e =>
          unfold nextPlan at hplan
          rw [hsettings] at hplan
          split at hplan
          · cases hplan
          · split at hplan <;> cases hplan
      | ok plan =>
          cases plan with
          | nil => exact ⟨progress, rfl⟩
          | cons part plan => exact ih (healer.carryOut progress (part :: plan))

theorem Healer.exists_report {σ : Type} (healer : Healer ρ)
    (hsettings : healer.scheduler.problem? = none) (bundler : Bundler σ) (service : ρ)
    (files : Sources) :
    ∃ report workspace, healer.heal bundler service files = .ok (report, workspace) := by
  obtain ⟨progress, hrounds⟩ := healer.exists_makeRounds hsettings healer.options.maxRounds
    ⟨0, .ofFiles bundler service files, .ofTasks []⟩
  refine ⟨healer.report files progress, progress.workspace, ?_⟩
  unfold heal
  dsimp only
  rw [hrounds]
  rfl

theorem Healer.heal_accurate {service : ρ} {report : Report} {workspace : Workspace Bool ρ}
    (h : healer.heal (Bundler.onLinker options) service files = .ok (report, workspace)) :
    report.Accurate healer options files := by
  obtain ⟨progress, hrounds, rfl⟩ := heal_eq_ok h
  obtain ⟨hdone, hmost⟩ :=
    (Progress.Accounted.start healer options service files).makeRounds _ hrounds
  refine ⟨hdone.kept, hdone.built, rfl, ?_, fun path => ?_, ?_, hdone.stats, hdone.fixes,
    hdone.each, fun hsuccess => if_pos hsuccess⟩
  · exact (progress.workspace.files.ascending.filter _).map _ fun _ _ hlt => hlt
  · rw [← hdone.kept]
    exact mem_modified
  · rwa [Nat.zero_add] at hmost

-- Healing by patches alone, with the usual limits.
def Healer.patching : Healer Unit := ⟨.usual, .patchOnly, {}, {}⟩

-- A component that lacks the import of another one.
def missingSuspense : Sources := .ofList [("main.js", "r.mount(<Suspense/>)")]

theorem Healer.heal_accurate_missingSuspense :
    ((Bundler.onLinker {}).bundle missingSuspense).1.success = false ∧
      ∃ report workspace, Healer.patching.heal (Bundler.onLinker {}) () missingSuspense =
        .ok (report, workspace) ∧ report.Accurate Healer.patching {} missingSuspense := by
  obtain ⟨report, workspace, h⟩ := Healer.patching.exists_report (by decide +kernel)
    (Bundler.onLinker {}) () missingSuspense
  exact ⟨by decide +kernel, report, workspace, h, Healer.heal_accurate h⟩

end LivePreview.Healing
