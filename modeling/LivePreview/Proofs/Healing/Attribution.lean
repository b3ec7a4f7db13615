import LivePreview.Proofs.Healing.Accounts
import LivePreview.Proofs.Healing.Reports

namespace LivePreview

namespace Sources

theorem nodup_toList (files : Sources) : files.toList.Nodup :=
  files.ascending.imp fun hlt heq => absurd (heq ▸ hlt) (String.lt_irrefl _)

-- Files that hold the same at every path are the same.
theorem eq_of_get? {first second : Sources} (h : ∀ path, first.get? path = second.get? path) :
    first = second := by
  have hperm : first.toList.Perm second.toList :=
    (List.perm_ext_iff_of_nodup first.nodup_toList second.nodup_toList).mpr fun ⟨path, content⟩ => by
      rw [← get?_eq_some_iff, ← get?_eq_some_iff, h]
  refine ext (hperm.eq_of_pairwise ?_ first.ascending second.ascending)
  intro file other _ _ hlt hgt
  exact absurd (String.lt_trans hlt hgt) (String.lt_irrefl _)

end Sources

namespace Healing

open Retry

variable {σ ρ : Type}

-- The workspace in a round: only files for which there is a task have changed, and the tasks that
-- have succeeded have left their fixes.
structure Touched (before : Sources) (plan : List (Diagnosis × String)) (earlier : List Fix)
    (ended : List (String × Outcome)) (workspace : Workspace σ ρ) : Prop where
  kept : workspace.files.paths = before.paths
  changed : ∀ path, workspace.files.get? path ≠ before.get? path → ∃ part ∈ plan, part.2 = path
  earlier : earlier ⊆ workspace.fixes
  noted : ∀ (index : Nat) (part : Diagnosis × String), plan[index]? = some part →
    (toString index, Outcome.succeeded) ∈ ended → ∃ fix ∈ workspace.fixes, fix.target = part.2

namespace Touched

variable {before : Sources} {plan : List (Diagnosis × String)} {earlier : List Fix}
  {ended : List (String × Outcome)} {workspace : Workspace σ ρ}

theorem write (h : Touched before plan earlier ended workspace) {part : Diagnosis × String}
    (hpart : part ∈ plan) (htarget : part.2 ∈ before.paths) (current content : String) :
    Touched before plan earlier ended (workspace.write part.2 current content) := by
  unfold Workspace.write
  split
  · exact h
  · refine ⟨?_, fun path hpath => ?_, h.earlier, h.noted⟩
    · exact (Sources.paths_insert (h.kept ▸ htarget)).trans h.kept
    · rw [Sources.get?_insert] at hpath
      split at hpath
      · rename_i heq
        exact ⟨part, hpart, heq.symm⟩
      · exact h.changed path hpath

theorem fail (h : Touched before plan earlier ended workspace) (id : String) {outcome : Outcome}
    (houtcome : outcome.isSuccess = false) :
    Touched before plan earlier (ended ++ [(id, outcome)]) workspace := by
  refine ⟨h.kept, h.changed, h.earlier, fun index part hpart hended => ?_⟩
  rcases List.mem_append.mp hended with hended | hended
  · exact h.noted index part hpart hended
  · obtain ⟨_, rfl⟩ := Prod.mk.inj (List.mem_singleton.mp hended)
    cases houtcome

theorem addFix (h : Touched before plan earlier ended workspace) {index : Nat}
    {part : Diagnosis × String} (hpart : plan[index]? = some part) {fix : Fix}
    (hfix : fix.target = part.2) :
    Touched before plan earlier (ended ++ [(toString index, .succeeded)]) (workspace.addFix fix) := by
  refine ⟨h.kept, h.changed, List.Subset.trans h.earlier (List.subset_append_left _ _), ?_⟩
  intro other found hfound hended
  rcases List.mem_append.mp hended with hended | hended
  · obtain ⟨fix, hmem, htarget⟩ := h.noted other found hfound hended
    exact ⟨fix, List.mem_append_left _ hmem, htarget⟩
  · obtain ⟨hid, _⟩ := Prod.mk.inj (List.mem_singleton.mp hended)
    obtain rfl := toString_inj hid
    obtain rfl := Option.some.inj (hpart.symm.trans hfound)
    exact ⟨fix, List.mem_append_right _ List.mem_cons_self, hfix⟩

end Touched

theorem Attempt.closed_touched (service : Repair.Service ρ) {before : Sources}
    {plan : List (Diagnosis × String)} {earlier : List Fix} {index : Nat}
    {part : Diagnosis × String} (hpart : plan[index]? = some part)
    (htarget : part.2 ∈ before.paths) (round number : Nat) :
    Attempt.Closed (σ := σ) service ⟨round, part.1, part.2, number⟩ (Touched before plan earlier)
      (toString index) where
  write h current content :=
    have hwritten := h.write (List.mem_of_getElem? hpart) htarget current content
    ⟨hwritten.kept, hwritten.changed, hwritten.earlier, hwritten.noted⟩
  ask h _ := ⟨h.kept, h.changed, h.earlier, h.noted⟩
  fail h _ houtcome := h.fail _ houtcome
  addFix h _ _ := h.addFix hpart rfl

-- Healing so far: every file that has changed is that of a fix or of one of the tasks that failed.
structure Progress.Attributed (files : Sources) (progress : Progress σ ρ) : Prop where
  kept : progress.workspace.files.paths = files.paths
  changed : ∃ strays : List String, strays.length ≤ progress.stats.failed ∧
    ∀ path, progress.workspace.files.get? path ≠ files.get? path →
      (∃ fix ∈ progress.workspace.fixes, fix.target = path) ∨ path ∈ strays

-- The changes that a report names are those of its fixes, but for one file at most for each task
-- that failed.
structure Report.Attributed (files : Sources) (report : Report) : Prop where
  strays : report.modified.countP (· ∉ report.fixes.map (·.target)) ≤ report.stats.failed
  fixed : report.stats.failed = 0 → ∀ path ∈ report.modified, ∃ fix ∈ report.fixes, fix.target = path
  untouched : report.stats.failed = 0 → report.fixes = [] → report.files = files

theorem Healer.nodup_modified (before after : Sources) : (Healer.modified before after).Nodup := by
  have hascending : (Healer.modified before after).Pairwise (· < ·) :=
    (after.ascending.filter _).map _ fun _ _ hlt => hlt
  exact hascending.imp fun hlt heq => absurd (heq ▸ hlt) (String.lt_irrefl _)

namespace Progress.Attributed

variable {files : Sources} {progress : Progress σ ρ} {healer : Healer ρ}

theorem start (bundler : Bundler σ) (service : ρ) (files : Sources) :
    Attributed files ⟨0, .ofFiles bundler service files, .ofTasks []⟩ :=
  ⟨rfl, [], Nat.zero_le _, fun _ hpath => absurd rfl hpath⟩

-- The tasks of a round of which no attempt succeeded are added to the strays.
theorem carryOut (h : progress.Attributed files) (hsettings : healer.scheduler.problem? = none)
    (plan : List (Diagnosis × String)) (hplan : ∀ part ∈ plan, part.2 ∈ files.paths) :
    (healer.carryOut progress plan).Attributed files := by
  have hinv : Touched progress.workspace.files plan progress.workspace.fixes []
      progress.workspace :=
    ⟨rfl, fun _ hpath => absurd rfl hpath, List.Subset.refl _, fun _ _ _ hended => nomatch hended⟩
  obtain ⟨ended, hdone, _, _, _, hfailed⟩ := Healer.carried_out healer hsettings hinv
    (progress.rounds + 1) plan fun index part hpart number _ _ =>
      (Attempt.closed_touched healer.service hpart
        (h.kept ▸ hplan part (List.mem_of_getElem? hpart)) _ number).keeps_work
  obtain ⟨strays, hlength, hchanged⟩ := h.changed
  unfold Healer.carryOut
  dsimp only
  generalize (healer.enqueueAll (progress.rounds + 1) 0 plan
    (.start healer.scheduler progress.workspace [])).waitIdle = rest at *
  refine ⟨hdone.kept.trans h.kept, strays ++ ((List.range plan.length).filter fun index =>
    (toString index, Outcome.succeeded) ∉ ended).filterMap fun index => plan[index]?.map (·.2),
    ?_, fun path hpath => ?_⟩
  · rw [List.length_append]
    rw [List.countP_eq_length_filter] at hfailed
    exact Nat.add_le_add hlength ((List.length_filterMap_le _ _).trans hfailed)
  · by_cases hround : rest.world.files.get? path = progress.workspace.files.get? path
    · rcases hchanged path (hround ▸ hpath) with ⟨fix, hmem, htarget⟩ | hstray
      · exact .inl ⟨fix, hdone.earlier hmem, htarget⟩
      · exact .inr (List.mem_append_left _ hstray)
    · obtain ⟨part, hpart, rfl⟩ := hdone.changed path hround
      obtain ⟨index, hindex, hget⟩ := List.getElem_of_mem hpart
      have hsome : plan[index]? = some part := List.getElem?_eq_some_iff.mpr ⟨hindex, hget⟩
      by_cases hended : (toString index, Outcome.succeeded) ∈ ended
      · exact .inl (hdone.noted index part hsome hended)
      · refine .inr (List.mem_append_right _ (List.mem_filterMap.mpr ⟨index, ?_, ?_⟩))
        · exact List.mem_filter.mpr ⟨List.mem_range.mpr hindex, decide_eq_true hended⟩
        · rw [hsome, Option.map_some]

theorem makeRounds (rounds : Nat) (h : progress.Attributed files) {after : Progress σ ρ}
    (hafter : healer.makeRounds rounds progress = .ok after) : after.Attributed files := by
  induction rounds generalizing progress with
  | zero =>
      unfold Healer.makeRounds at hafter
      obtain rfl := Except.ok.inj hafter
      exact h
  | succ rounds ih =>
      unfold Healer.makeRounds at hafter
      split at hafter
      · cases hafter
      · obtain rfl := Except.ok.inj hafter
        exact h
      · rename_i plan hnext hplan
        obtain ⟨hsettings, rfl⟩ := Healer.nextPlan_eq_ok hplan hnext
        exact ih (h.carryOut hsettings _ fun part hm =>
          h.kept ▸ Healer.mem_paths_of_mem_plan hm) hafter

theorem report (h : progress.Attributed files) : (healer.report files progress).Attributed files := by
  obtain ⟨strays, hlength, hchanged⟩ := h.changed
  have hattributed : ∀ path, progress.workspace.files.get? path ≠ files.get? path →
      path ∉ progress.workspace.fixes.map (·.target) → path ∈ strays :=
    fun path hpath hnone => (hchanged path hpath).resolve_left fun hfix =>
      hnone (List.mem_map.mpr hfix)
  have hnostray : progress.stats.failed = 0 → strays = [] := fun hzero =>
    List.length_eq_zero_iff.mp (Nat.le_zero.mp (hzero ▸ hlength))
  refine ⟨?_, fun hzero path hpath => ?_, fun hzero hnone => Sources.eq_of_get? fun path => ?_⟩
  · have hless := ((Healer.nodup_modified files progress.workspace.files).filter fun path =>
      path ∉ progress.workspace.fixes.map (·.target)).subperm fun path hpath => by
        obtain ⟨hmem, hno⟩ := List.mem_filter.mp hpath
        exact hattributed path (Healer.mem_modified.mp hmem).2 (of_decide_eq_true hno)
    rw [List.countP_eq_length_filter]
    exact hless.length_le.trans hlength
  · refine (hchanged path (Healer.mem_modified.mp hpath).2).resolve_right ?_
    rw [hnostray hzero]
    exact List.not_mem_nil
  · by_contra hpath
    have hstray := hattributed path hpath (by
      rw [show progress.workspace.fixes = [] from hnone]
      exact List.not_mem_nil)
    rw [hnostray hzero] at hstray
    cases hstray

end Progress.Attributed

section Rounds

variable {healer : Healer ρ} {progress : Progress σ ρ}

theorem Healer.makeRounds_of_nil (rounds : Nat) (h : healer.nextPlan progress.workspace = .ok []) :
    healer.makeRounds rounds progress = .ok progress := by
  cases rounds with
  | zero => rfl
  | succ rounds => rw [makeRounds, h]

theorem Healer.makeRounds_of_plan (rounds : Nat) {plan : List (Diagnosis × String)}
    (h : healer.nextPlan progress.workspace = .ok plan) (hplan : plan ≠ []) :
    healer.makeRounds (rounds + 1) progress =
      healer.makeRounds rounds (healer.carryOut progress plan) := by
  cases plan with
  | nil => exact absurd rfl hplan
  | cons part plan => rw [makeRounds, h]

-- The rounds are given up only over settings with which something is wrong.
theorem Healer.problem?_of_makeRounds {rounds : Nat} {e : SettingsError}
    (h : healer.makeRounds rounds progress = .error e) :
    healer.scheduler.problem? = some e := by
  cases hproblem : healer.scheduler.problem? with
  | none =>
      obtain ⟨after, hafter⟩ := healer.exists_makeRounds hproblem rounds progress
      rw [h] at hafter
      cases hafter
  | some other =>
      cases rounds with
      | zero => cases h
      | succ rounds =>
          unfold makeRounds at h
          split at h
          · rename_i hplan
            rw [← Except.error.inj h]
            unfold nextPlan at hplan
            split at hplan
            · cases hplan
            · split at hplan
              · cases hplan
              · rw [hproblem] at hplan
                exact congrArg some (Except.error.inj hplan)
          · cases h
          · rename_i plan hnext hplan
            rw [(nextPlan_eq_ok hplan hnext).1] at hproblem
            cases hproblem

end Rounds

-- Whatever the engine and the repair service are: healing ends with a report whose changes are
-- those of its fixes and of tasks that failed, or refuses the settings of the scheduler.
theorem Healer.heal_attributed (healer : Healer ρ) (bundler : Bundler σ) (service : ρ)
    (files : Sources) :
    (∃ report workspace, healer.heal bundler service files = .ok (report, workspace) ∧
      report.Attributed files) ∨
    ∃ e, healer.heal bundler service files = .error e ∧ healer.scheduler.problem? = some e := by
  unfold heal
  dsimp only
  cases hrounds : healer.makeRounds healer.options.maxRounds
      ⟨0, .ofFiles bundler service files, .ofTasks []⟩ with
  | error e => exact .inr ⟨e, rfl, problem?_of_makeRounds hrounds⟩
  | ok progress =>
      have hattributed := (Progress.Attributed.start bundler service files).makeRounds _ hrounds
      exact .inl ⟨healer.report files progress, progress.workspace, rfl, hattributed.report⟩

-- The path of the second file is cut short in its error, so that the import which the file lacks goes
-- into the entry.
def misplaced : Sources :=
  .ofList [("main.js", "import './a b.js'\nr.mount(1)"), ("a b.js", "<X/>")]

def misplacedPatch : String :=
  "import \x7b X \x7d from 'lucide-react';\nimport './a b.js'\nr.mount(1)"

def misplacedPatched : Sources := misplaced.insert "main.js" misplacedPatch

def rawMissingX : String := "ReferenceError: X is not defined\n    at a b.js:1:1"

def missingX : Diagnosis := Classifier.usual.classify rawMissingX

-- The patch changes nothing about the bundle.
theorem bundle_misplaced : ∀ files ∈ [misplaced, misplacedPatched],
    ((Bundler.onLinker {}).bundle files).1.success = false ∧
      ((Bundler.onLinker {}).bundle files).1.entryPoint? = some ⟨"main.js", true⟩ ∧
      ((Bundler.onLinker {}).bundle files).1.errors.map (·.raw) = [rawMissingX] := by
  decide +kernel

theorem diagnoses_misplaced {files : Sources} (h : files ∈ [misplaced, misplacedPatched]) :
    ((Bundler.onLinker {}).bundle files).1.diagnoses .usual = [missingX] := by
  have hone : Classifier.usual.classifyAll [rawMissingX] = [missingX] := by decide +kernel
  rw [BundleResult.diagnoses, (bundle_misplaced files h).2.2, hone]

theorem action_misplaced :
    (missingX.remedy ((misplaced.get? "main.js").getD "")).action = .patch misplacedPatch ∧
      ∀ content, (missingX.remedy misplacedPatch).action ≠ .patch content := by
  have hnone : (missingX.remedy misplacedPatch).patch? = none := by decide +kernel
  refine ⟨by decide +kernel, fun content hcontent => ?_⟩
  rw [Remedy.patch?, hcontent] at hnone
  cases hnone

-- The first attempt patches the entry, and all attempts fail.
structure Misled (ended : List (String × Outcome)) (workspace : Workspace Bool Unit) : Prop where
  linker : workspace.bundler.IsLinker {}
  files : workspace.files = if ended = [] then misplaced else misplacedPatched
  fixes : workspace.fixes = []

theorem Misled.fail {ended : List (String × Outcome)} {workspace : Workspace Bool Unit}
    (hlinker : workspace.bundler.IsLinker {}) (hfiles : workspace.files = misplacedPatched)
    (hfixes : workspace.fixes = []) (id : String) (outcome : Outcome) :
    Misled (ended ++ [(id, outcome)]) workspace :=
  ⟨hlinker, by rw [hfiles, if_neg (by simp)], hfixes⟩

theorem keeps_misled (id : String) (round number : Nat) :
    (Attempt.work (σ := Bool) .usual .patchOnly ⟨round, missingX, "main.js", number⟩).Keeps Misled
      id := by
  intro ended workspace h
  refine ⟨h, fun ended workspace h => ?_⟩
  obtain ⟨hpatch, hnopatch⟩ := action_misplaced
  simp only [Work.KeepsAt, id_eq, Attempt.treat]
  by_cases hnil : ended = []
  · have hfiles : workspace.files = misplaced := by rw [h.files, if_pos hnil]
    have haction : (missingX.remedy (workspace.content "main.js")).action =
        .patch misplacedPatch := by
      rw [Workspace.content, hfiles]
      exact hpatch
    have hwrite : workspace.write "main.js" (workspace.content "main.js") misplacedPatch =
        { workspace with files := misplacedPatched } := by
      rw [Workspace.write, Workspace.content, hfiles, if_neg (by decide)]
      rfl
    have hbuilt : ({ workspace with files := misplacedPatched } : Workspace Bool Unit).bundle.built =
        ((Bundler.onLinker {}).bundle misplacedPatched).1 :=
      Bundler.bundle_eq_onLinker h.linker misplacedPatched
    split
    · rename_i content hcontent
      obtain rfl := Action.patch.inj (haction.symm.trans hcontent)
      simp only [Attempt.put, Attempt.verify, Work.KeepsAt, hwrite]
      rw [if_pos (by
        rw [hbuilt, BundleResult.reports, diagnoses_misplaced (by simp)]
        exact List.any_eq_true.mpr ⟨missingX, List.mem_cons_self, Diagnosis.isSame_refl _⟩)]
      exact ⟨(Bundler.bundle_linker h.linker misplacedPatched).2, (if_neg (by simp)).symm, h.fixes⟩
    · rename_i prompt hprompt
      rw [haction] at hprompt
      cases hprompt
    · rename_i hnone
      rw [haction] at hnone
      cases hnone
  · have hfiles : workspace.files = misplacedPatched := by rw [h.files, if_neg hnil]
    have hcontent : workspace.content "main.js" = misplacedPatch := by
      rw [Workspace.content, hfiles, misplacedPatched, Sources.get?_insert, if_pos rfl]
      rfl
    rw [hcontent]
    split
    · rename_i content haction
      exact absurd haction (hnopatch content)
    · exact Misled.fail h.linker hfiles h.fixes id _
    · exact Misled.fail h.linker hfiles h.fixes id _

-- The entry is worth an attempt until it holds the patch.
theorem nextPlan_misplaced {workspace : Workspace Bool Unit} {files : Sources}
    (h : files ∈ [misplaced, misplacedPatched]) (hfiles : workspace.files = files)
    (hbuilt : workspace.built = ((Bundler.onLinker {}).bundle files).1) :
    Healer.patching.nextPlan workspace =
      .ok (if files = misplaced then [(missingX, "main.js")] else []) := by
  obtain ⟨hsuccess, hentry, _⟩ := bundle_misplaced files h
  have hworth : Healer.patching.worthTreating workspace.built = [missingX] := by
    rw [Healer.worthTreating, hbuilt]
    show List.filter _ (((Bundler.onLinker {}).bundle files).1.diagnoses .usual) = _
    rw [diagnoses_misplaced h]
    decide +kernel
  have htarget : Healer.target? workspace.files workspace.built missingX = some "main.js" := by
    have hentries : ∀ files ∈ [misplaced, misplacedPatched],
        (missingX.location.file?.bind files.spelling?).or (files.spelling? "main.js") =
          some "main.js" := by
      decide +kernel
    rw [Healer.target?, hbuilt, hentry, hfiles]
    exact hentries files h
  have hcontents : ∀ files ∈ [misplaced, misplacedPatched],
      Healer.patching.canTreat missingX ((files.get? "main.js").getD "") =
        decide (files = misplaced) := by
    decide +kernel
  have hplan : Healer.patching.plan workspace =
      if files = misplaced then [(missingX, "main.js")] else [] := by
    rw [Healer.plan, hworth, List.filterMap_cons, htarget, Option.bind_some, Workspace.content,
      hfiles, hcontents files h]
    by_cases hfirst : files = misplaced <;> simp [hfirst]
  have hsettings : Healer.patching.scheduler.problem? = none := by decide +kernel
  rw [Healer.nextPlan, hworth, hbuilt, hsuccess, if_neg (by decide), if_neg (by simp), hsettings,
    hplan]

-- A run without a fix that changes a file: the edit of an attempt that failed stays.
theorem Healer.heal_strays_misplaced :
    ∃ report workspace, Healer.patching.heal (Bundler.onLinker {}) () misplaced =
        .ok (report, workspace) ∧
      report.fixes = [] ∧ report.modified = ["main.js"] ∧ report.files ≠ misplaced := by
  let start : Workspace Bool Unit := .ofFiles (Bundler.onLinker {}) () misplaced
  have hlinker := (Bundler.bundle_linker (Bundler.isLinker_onLinker {}) misplaced).2
  obtain ⟨ended, hdone, _, _, hended, _⟩ := Healer.carried_out Healer.patching (by decide +kernel)
    (⟨hlinker, rfl, rfl⟩ : Misled [] start) 1 [(missingX, "main.js")]
    fun index part hpart number _ _ => by
      obtain rfl := List.mem_singleton.mp (List.mem_of_getElem? hpart)
      exact keeps_misled (toString index) 1 number
  have hsome : ended ≠ [] := by
    rintro rfl
    obtain ⟨outcome, hmem⟩ := hended 0 Nat.one_pos
    cases hmem
  let last := Healer.patching.carryOut ⟨0, start, .ofTasks []⟩ [(missingX, "main.js")]
  have hfiles : last.workspace.files = misplacedPatched := hdone.files.trans (if_neg hsome)
  have hbuilt : last.workspace.built = ((Bundler.onLinker {}).bundle misplacedPatched).1 :=
    hfiles ▸ Bundler.bundle_eq_onLinker hdone.linker _
  have hne : misplacedPatched ≠ misplaced := by decide +kernel
  have hfirst : Healer.patching.nextPlan start = _ := nextPlan_misplaced List.mem_cons_self rfl rfl
  have hsecond := nextPlan_misplaced (List.mem_cons_of_mem _ List.mem_cons_self) hfiles hbuilt
  rw [if_pos rfl] at hfirst
  rw [if_neg hne] at hsecond
  have hrounds : Healer.patching.makeRounds 3 ⟨0, start, .ofTasks []⟩ = .ok last :=
    (Healer.makeRounds_of_plan 2 hfirst (by simp)).trans (Healer.makeRounds_of_nil 2 hsecond)
  refine ⟨Healer.patching.report misplaced last, last.workspace, ?_, hdone.fixes, ?_, ?_⟩
  · unfold heal
    dsimp only
    rw [show Healer.patching.options.maxRounds = 3 from rfl, hrounds]
    rfl
  · show Healer.modified misplaced last.workspace.files = _
    rw [hfiles]
    decide +kernel
  · exact fun heq => hne (hfiles.symm.trans heq)

end Healing

end LivePreview
