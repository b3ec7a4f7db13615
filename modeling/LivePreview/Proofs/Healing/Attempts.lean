import LivePreview.Bundle.Bundler
import LivePreview.Healing.Healer
import LivePreview.Proofs.Linking.BreadthFirst
import LivePreview.Proofs.Scheduling.Discipline
import LivePreview.Proofs.Sources.Spelling

namespace LivePreview.Bundler

-- A bundler on the linker with the given settings, whatever state it is in.
structure IsLinker (options : BundleOptions) (bundler : Bundler Bool) : Prop where
  engine : bundler.engine = .linker
  options : bundler.options = options

theorem isLinker_onLinker (options : BundleOptions) : (onLinker options).IsLinker options :=
  ⟨rfl, rfl⟩

-- That the linker runs already is as good as a start.
theorem ensureReady_linker {options : BundleOptions} {bundler : Bundler Bool}
    (h : bundler.IsLinker options) :
    bundler.ensureReady.1 = .ok () ∧ bundler.ensureReady.2.IsLinker options := by
  obtain ⟨engine, given, started, ready⟩ := bundler
  obtain ⟨rfl, rfl⟩ := h
  cases ready <;> cases started <;> exact ⟨rfl, rfl, rfl⟩

-- What the linker makes of files does not depend on what it was asked before.
theorem bundle_linker {options : BundleOptions} {bundler : Bundler Bool}
    (h : bundler.IsLinker options) (files : Sources) :
    (bundler.bundle files).1 = (match BuildPlan.make options files with
      | .error result => result
      | .ok plan => plan.result (Engine.linked plan.files plan.start)) ∧
      (bundler.bundle files).2.IsLinker options := by
  obtain ⟨hready, hafter⟩ := ensureReady_linker h
  unfold bundle
  rw [h.options]
  cases BuildPlan.make options files with
  | error result => exact ⟨rfl, h⟩
  | ok plan =>
      rcases hstart : bundler.ensureReady with ⟨_ | _, after⟩
      · rw [hstart] at hready
        cases hready
      · rw [hstart] at hafter
        dsimp only at hafter ⊢
        rw [hafter.engine]
        exact ⟨rfl, rfl, hafter.options⟩

theorem bundle_eq_onLinker {options : BundleOptions} {bundler : Bundler Bool}
    (h : bundler.IsLinker options) (files : Sources) :
    (bundler.bundle files).1 = ((onLinker options).bundle files).1 :=
  (bundle_linker h files).1.trans (bundle_linker (isLinker_onLinker options) files).1.symm

open Linking in
-- The errors of a bundle are the findings about the modules that are reached.
theorem errors_bundle {options : BundleOptions} {bundler : Bundler Bool} {files : Sources}
    {plan : BuildPlan} (h : bundler.IsLinker options)
    (hplan : BuildPlan.make options files = .ok plan) (hnames : NoAssetNames plan.files) :
    (bundler.bundle files).1.errors =
        ((reached plan.files plan.start).flatMap (findingsOf plan.files)).map
          (fun finding => .ofMessage (.ofFinding finding)) ∧
      ((bundler.bundle files).1.success = true ↔
        (reached plan.files plan.start).flatMap (findingsOf plan.files) = []) := by
  rw [(bundle_linker h files).1, hplan]
  dsimp only
  rw [← findings_walkFrom hnames plan.start]
  unfold BuildPlan.result Engine.linked
  cases hlink : link plan.files plan.start with
  | error findings =>
      obtain ⟨rfl, hne⟩ := link_eq_error_iff.mp hlink
      constructor
      · show List.map _ (List.map _ _) = _
        rw [List.map_map]
        rfl
      · exact ⟨(fun hsuccess => nomatch hsuccess), fun hnil => absurd hnil hne⟩
  | ok output =>
      have hnil := exists_link_eq_ok_iff.mp ⟨output, hlink⟩
      rw [hnil]
      exact ⟨rfl, fun _ => rfl, fun _ => rfl⟩

end LivePreview.Bundler

namespace LivePreview

namespace Healing

open Retry

variable {ρ : Type}

-- The workspace in a round: the files are at the paths at which they were, and there is one more fix
-- for each attempt of the round that has succeeded.
structure Mended (options : BundleOptions) (paths : List String) (earlier : List Fix)
    (round most : Nat) (ended : List (String × Outcome)) (workspace : Workspace Bool ρ) : Prop where
  linker : workspace.bundler.IsLinker options
  kept : workspace.files.paths = paths
  fixes : ∃ fixes, workspace.fixes = earlier ++ fixes ∧
    fixes.length = ended.countP (·.2.isSuccess) ∧
    ∀ fix ∈ fixes, fix.round = round ∧ 1 ≤ fix.attempts ∧ fix.attempts ≤ most ∧ fix.target ∈ paths

namespace Mended

variable {options : BundleOptions} {paths : List String} {earlier : List Fix} {round most : Nat}
  {ended : List (String × Outcome)} {workspace : Workspace Bool ρ}

-- An attempt that does not succeed adds no fix.
theorem fail (h : Mended options paths earlier round most ended workspace) (id : String)
    {outcome : Outcome} (houtcome : outcome.isSuccess = false) :
    Mended options paths earlier round most (ended ++ [(id, outcome)]) workspace := by
  obtain ⟨fixes, happend, hlength, heach⟩ := h.fixes
  refine ⟨h.linker, h.kept, fixes, happend, ?_, heach⟩
  rw [List.countP_append, List.countP_singleton, houtcome, hlength]
  rfl

theorem addFix (h : Mended options paths earlier round most ended workspace) (id : String)
    {fix : Fix} (hround : fix.round = round) (hfirst : 1 ≤ fix.attempts)
    (hlast : fix.attempts ≤ most) (htarget : fix.target ∈ paths) :
    Mended options paths earlier round most (ended ++ [(id, .succeeded)])
      (workspace.addFix fix) := by
  obtain ⟨fixes, happend, hlength, heach⟩ := h.fixes
  refine ⟨h.linker, h.kept, fixes ++ [fix], ?_, ?_, ?_⟩
  · rw [Workspace.addFix, happend, List.append_assoc]
  · rw [List.length_append, List.countP_append, List.countP_singleton, hlength]
    rfl
  · intro other hm
    rcases List.mem_append.mp hm with hm | hm
    · exact heach other hm
    · rw [List.mem_singleton.mp hm]
      exact ⟨hround, hfirst, hlast, htarget⟩

theorem bundle (h : Mended options paths earlier round most ended workspace) :
    Mended options paths earlier round most ended workspace.bundle :=
  ⟨(Bundler.bundle_linker h.linker workspace.files).2, h.kept, h.fixes⟩

theorem write (h : Mended options paths earlier round most ended workspace) {target : String}
    (htarget : target ∈ paths) (current content : String) :
    Mended options paths earlier round most ended (workspace.write target current content) := by
  unfold Workspace.write
  split
  · exact h
  · refine ⟨h.linker, ?_, h.fixes⟩
    rw [← h.kept] at htarget ⊢
    exact Sources.paths_insert htarget

theorem ask (h : Mended options paths earlier round most ended workspace)
    (service : Repair.Service ρ) (request : Repair.Request) :
    Mended options paths earlier round most ended (workspace.ask service request) :=
  ⟨h.linker, h.kept, h.fixes⟩

end Mended

namespace Attempt

variable {σ : Type} (classifier : Classifier) (service : Repair.Service ρ) (attempt : Attempt)

theorem straight_verify (fix : Fix) :
    (attempt.verify (σ := σ) (ρ := ρ) classifier fix).Straight := by
  intro workspace
  dsimp only
  split
  · trivial
  · exact fun _ => trivial

theorem holding_put (current content : String) (fix : Fix) (naps : Nat) :
    (attempt.put (σ := σ) (ρ := ρ) classifier current content fix).Holding attempt.target naps :=
  fun _ => ⟨rfl, straight_verify classifier attempt fix⟩

-- The file is held until its content is made, and the service is waited for once at most.
theorem orderly_work : (attempt.work (σ := σ) classifier service).Orderly := by
  refine ⟨attempt.target, _, rfl, fun workspace => ?_⟩
  simp only [treat]
  split
  · exact holding_put classifier attempt _ _ _ 3
  · split
    · intro workspace
      dsimp only
      unfold useAnswer
      split
      · exact holding_put classifier attempt _ _ _ 2
      · exact ⟨rfl, trivial⟩
    · exact ⟨rfl, trivial⟩
  · exact ⟨rfl, trivial⟩

-- What holds between the attempts that have ended and the workspace stays true whatever the attempt
-- may do with the workspace, and whichever end it comes to.
structure Closed (Inv : List (String × Outcome) → Workspace σ ρ → Prop) (id : String) : Prop where
  write : ∀ {ended workspace}, Inv ended workspace → ∀ current content,
    Inv ended (workspace.write attempt.target current content).bundle
  ask : ∀ {ended workspace}, Inv ended workspace → ∀ request, Inv ended (workspace.ask service request)
  fail : ∀ {ended workspace}, Inv ended workspace → ∀ {outcome}, outcome.isSuccess = false →
    Inv (ended ++ [(id, outcome)]) workspace
  addFix : ∀ {ended workspace}, Inv ended workspace → ∀ description origin,
    Inv (ended ++ [(id, .succeeded)]) (workspace.addFix (attempt.fix description origin))

namespace Closed

variable {classifier service attempt} {Inv : List (String × Outcome) → Workspace σ ρ → Prop}
  {id : String} {ended : List (String × Outcome)} {workspace : Workspace σ ρ}

theorem keepsAt_put (h : attempt.Closed service Inv id) (hinv : Inv ended workspace)
    (current content description : String) (origin : Origin) :
    (attempt.put classifier current content (attempt.fix description origin)).KeepsAt Inv id
      ended workspace := by
  have hbuilt := h.write hinv current content
  simp only [put, verify, Work.KeepsAt]
  split
  · exact h.fail hbuilt rfl
  · exact h.addFix hbuilt description origin

-- An attempt notes its fix in one go with its end.
theorem keeps_work (h : attempt.Closed service Inv id) :
    (attempt.work classifier service).Keeps Inv id := by
  intro ended workspace hinv
  refine ⟨hinv, fun ended workspace hinv => ?_⟩
  simp only [Work.KeepsAt, id_eq, treat]
  split
  · exact h.keepsAt_put hinv _ _ _ _
  · split
    · refine ⟨hinv, fun ended workspace hinv => ?_⟩
      simp only [Work.KeepsAt]
      unfold useAnswer
      split
      · exact h.keepsAt_put (h.ask hinv _) _ _ _ _
      · exact h.fail (h.ask hinv _) rfl
    · exact h.fail hinv rfl
  · exact h.fail hinv rfl

end Closed

theorem closed_mended {options : BundleOptions} {paths : List String} {earlier : List Fix}
    {most : Nat} (id : String) (htarget : attempt.target ∈ paths) (hfirst : 1 ≤ attempt.number)
    (hlast : attempt.number ≤ most) :
    attempt.Closed service (Mended options paths earlier attempt.round most) id where
  write h current content := (h.write htarget current content).bundle
  ask h request := h.ask service request
  fail h _ houtcome := h.fail id houtcome
  addFix h _ _ := h.addFix id rfl hfirst hlast htarget

end Attempt

end Healing

end LivePreview
