import LivePreview.Bundle.Engine
import LivePreview.Proofs.Healing.Attempts
import LivePreview.Proofs.Sources.Planning

namespace LivePreview

-- A build error stands for no bundle error only if the engine gave no message.
theorem BundleError.ofBuildError_eq_nil_iff {e : BuildError} :
    ofBuildError e = [] ↔ e = .failed [] := by
  cases e with
  | failed messages => simp [ofBuildError]
  | _ => simp [ofBuildError]

theorem EntryPoint.detect?_eq_none_of_nil {files : Sources} (h : files.toList = []) :
    detect? files = none := by
  have hget : ∀ path, files.get? path = none := by
    intro path
    rw [Sources.get?, h]
    rfl
  have hat : ∀ test, at? files test = fun _ => none := by
    intro test
    funext path
    rw [at?, hget, Option.bind_none]
  have hnone : withExtension? files = fun _ => none := by
    funext extension
    rw [withExtension?, h]
    rfl
  simp only [detect?, hat, hnone, List.findSome?_eq_none_iff.mpr fun _ _ => rfl, Option.map_none,
    Option.or_none]

namespace BundleResult

-- Success goes with an empty list of errors, failure with empty output.
structure Telling (result : BundleResult) (detected? : Option EntryPoint) : Prop where
  entry : result.entryPoint? = detected?
  succeeded : result.success = true → result.errors = []
  failed : result.success = false → result.code = "" ∧ result.css = ""

theorem telling_failure (error : BundleError) (warnings : List String)
    (detected? : Option EntryPoint) :
    (failure error warnings detected?).Telling detected? :=
  ⟨rfl, (fun h => nomatch h), fun _ => ⟨rfl, rfl⟩⟩

end BundleResult

namespace BuildPlan

variable {options : BundleOptions} {files : Sources} {plan : BuildPlan} {result : BundleResult}

theorem entry_of_make (h : make options files = .ok plan) :
    EntryPoint.detect? (files.prepare options.skipInvalid).files = some plan.entry := by
  obtain ⟨_, _, entry, hentry, rfl⟩ := make_eq_ok_iff.mp h
  rw [hentry, ofEntry]
  split <;> rfl

-- Where nothing can be built there is no entry, and one error says so.
theorem exists_of_make_eq_error (h : make options files = .error result) :
    EntryPoint.detect? (files.prepare options.skipInvalid).files = none ∧
      ∃ error warnings, result = .failure error warnings none := by
  unfold make at h
  dsimp only at h
  split at h
  · rename_i hnil
    have hprepared : (files.prepare options.skipInvalid).files.toList = [] := by
      rw [Sources.prepare, hnil]
      rfl
    exact ⟨EntryPoint.detect?_eq_none_of_nil hprepared, _, _, (Except.error.inj h).symm⟩
  · split at h
    · rename_i hnil
      exact ⟨EntryPoint.detect?_eq_none_of_nil hnil, _, _, (Except.error.inj h).symm⟩
    · split at h
      · rename_i hnone
        exact ⟨hnone, _, _, (Except.error.inj h).symm⟩
      · cases h

theorem telling_result (plan : BuildPlan) (built : Built) :
    (plan.result built).Telling (some plan.entry) := by
  unfold BuildPlan.result
  dsimp only
  split
  · exact ⟨rfl, (fun h => nomatch h), fun _ => ⟨rfl, rfl⟩⟩
  · exact ⟨rfl, fun _ => rfl, (fun h => nomatch h)⟩

theorem result_without_reason {built : Built} :
    ((plan.result built).success = false ∧ (plan.result built).errors = []) ↔
      built.result = .error (.failed []) := by
  unfold BuildPlan.result
  dsimp only
  split
  · rename_i e he
    simp [he, BundleError.ofBuildError_eq_nil_iff]
  · rename_i output houtput
    simp [houtput]

end BuildPlan

namespace Bundler

variable {σ : Type}

-- The engine was asked to build the files, and failed without a message.
def FailsMutely (bundler : Bundler σ) (files : Sources) : Prop :=
  ∃ plan, BuildPlan.make bundler.options files = .ok plan ∧ bundler.ensureReady.1 = .ok () ∧
    (bundler.ensureReady.2.engine.build plan.files plan.start
      bundler.ensureReady.2.state).1.result = .error (.failed [])

private theorem bundle_spec (bundler : Bundler σ) (files : Sources) :
    (bundler.bundle files).1.Telling
        (EntryPoint.detect? (files.prepare bundler.options.skipInvalid).files) ∧
      ((bundler.bundle files).1.success = false ∧ (bundler.bundle files).1.errors = [] ↔
        bundler.FailsMutely files) := by
  unfold FailsMutely bundle
  cases hmake : BuildPlan.make bundler.options files with
  | error result =>
      obtain ⟨hnone, error, warnings, rfl⟩ := BuildPlan.exists_of_make_eq_error hmake
      rw [hnone]
      exact ⟨BundleResult.telling_failure error warnings none, by simp [BundleResult.failure]⟩
  | ok plan =>
      rw [BuildPlan.entry_of_make hmake]
      rcases hready : bundler.ensureReady with ⟨answer, started⟩
      cases answer with
      | error e =>
          exact ⟨BundleResult.telling_failure _ plan.warnings (some plan.entry),
            by simp [BundleResult.failure]⟩
      | ok =>
          refine ⟨plan.telling_result _, ?_⟩
          simp only [Except.ok.injEq, exists_eq_left', true_and]
          exact BuildPlan.result_without_reason

-- For every engine, whatever it answers: the result tells of the entry that was detected, and
-- succeeds exactly if it has no errors, unless the engine fails without a message.
theorem bundle_telling (bundler : Bundler σ) (files : Sources) :
    (bundler.bundle files).1.Telling
        (EntryPoint.detect? (files.prepare bundler.options.skipInvalid).files) ∧
      (((bundler.bundle files).1.success = true ↔ (bundler.bundle files).1.errors = []) ↔
        ¬ bundler.FailsMutely files) := by
  obtain ⟨htelling, hmute⟩ := bundle_spec bundler files
  refine ⟨htelling, ?_⟩
  rw [← hmute]
  have hsucceeded := htelling.succeeded
  cases hsuccess : (bundler.bundle files).1.success with
  | true => simp [hsucceeded hsuccess]
  | false => simp

-- The linker does not fail without a message.
theorem IsLinker.success_iff {options : BundleOptions} {bundler : Bundler Bool}
    (h : bundler.IsLinker options) (files : Sources) :
    (bundler.bundle files).1.success = true ↔ (bundler.bundle files).1.errors = [] := by
  obtain ⟨htelling, hmute⟩ := bundle_spec bundler files
  refine ⟨htelling.succeeded, fun herrors => ?_⟩
  by_contra hfailed
  obtain ⟨plan, _, _, hnone⟩ := hmute.mp ⟨Bool.eq_false_iff.mpr hfailed, herrors⟩
  rw [(ensureReady_linker h).2.engine] at hnone
  replace hnone : ((Linking.link plan.files plan.start).mapError fun findings =>
      BuildError.failed (findings.map .ofFinding)) = .error (.failed []) := hnone
  cases hlink : Linking.link plan.files plan.start with
  | error findings =>
      rw [hlink] at hnone
      have hnil : findings.map BuildMessage.ofFinding = [] := by simpa [Except.mapError] using hnone
      exact (Linking.link_eq_error_iff.mp hlink).2 (List.map_eq_nil_iff.mp hnil)
  | ok output =>
      rw [hlink] at hnone
      cases hnone

end Bundler

-- An engine that fails without a message.
def muteEngine : Engine ScriptedState := .scripted ⟨[], [.answer (.error (.failed []))]⟩

theorem Bundler.bundle_telling_muteEngine :
    ((Bundler.ofEngine muteEngine Engine.unseen {}).bundle
        (.ofList [("main.js", "r.mount(1)")])).1.success = false ∧
      ((Bundler.ofEngine muteEngine Engine.unseen {}).bundle
        (.ofList [("main.js", "r.mount(1)")])).1.errors = [] := by
  decide +kernel

end LivePreview
