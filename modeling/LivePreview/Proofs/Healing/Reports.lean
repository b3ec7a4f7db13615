import LivePreview.Healing.Workspace
import LivePreview.Proofs.Diagnosis.Ranking

namespace LivePreview

namespace Diagnosis

theorem isAlike_of_isSame {first second : Diagnosis} (h : first.isSame second = true) :
    first.isAlike second = true := by
  rw [isSame, Bool.and_eq_true] at h
  exact h.1

theorem isSame_refl (diagnosis : Diagnosis) : diagnosis.isSame diagnosis = true := by
  simp [isSame]

theorem exists_find?_isAlike {diagnoses : List Diagnosis} {other diagnosis : Diagnosis}
    (hmem : other ∈ diagnoses) (halike : other.isAlike diagnosis = true) :
    ∃ first ∈ diagnoses, diagnoses.find? (·.isAlike diagnosis) = some first ∧
      first.key = diagnosis.key := by
  obtain ⟨first, hfirst⟩ := Option.isSome_iff_exists.mp
    (List.find?_isSome.mpr ⟨other, hmem, halike⟩ :
      (diagnoses.find? (·.isAlike diagnosis)).isSome = true)
  have hfound : first.isAlike diagnosis = true := by simpa using List.find?_some hfirst
  exact ⟨first, List.mem_of_find?_eq_some hfirst, hfirst, isAlike_iff.mp hfound⟩

end Diagnosis

open Diagnosis

namespace BundleResult

variable {result : BundleResult} {classifier : Classifier} {diagnosis : Diagnosis}

-- The diagnoses of the errors, each error taken by itself.
def diagnosed (result : BundleResult) (classifier : Classifier) : List Diagnosis :=
  result.errors.map fun error => classifier.classify error.raw

theorem diagnoses_perm (result : BundleResult) (classifier : Classifier) :
    (result.diagnoses classifier).Perm (Classifier.distinct [] (result.diagnosed classifier)) := by
  have hperm := classifier.classifyAll_perm (result.errors.map (·.raw))
  rw [List.map_map] at hperm
  exact hperm

-- Of the errors with the kind and the message of a diagnosis only the first one counts: the bundle
-- reports the diagnosis if that error is in its file.
theorem reports_iff_first :
    result.reports classifier diagnosis = true ↔
      ∃ first, (result.diagnosed classifier).find? (·.isAlike diagnosis) = some first ∧
        first.isSame diagnosis = true := by
  have hkept : (Classifier.distinct [] (result.diagnosed classifier)).find?
      (·.isAlike diagnosis) = (result.diagnosed classifier).find? (·.isAlike diagnosis) :=
    Classifier.find?_distinct List.not_mem_nil
  rw [reports, (result.diagnoses_perm classifier).any_eq, List.any_eq_true, ← hkept]
  constructor
  · rintro ⟨other, hmem, hsame⟩
    obtain ⟨first, hfirst, hfind, hkey⟩ := exists_find?_isAlike hmem (isAlike_of_isSame hsame)
    have hother : other.key = diagnosis.key := isAlike_iff.mp (isAlike_of_isSame hsame)
    have heq : first = other := List.inj_on_of_nodup_map (Classifier.nodup_distinct [] _)
      hfirst hmem (hkey.trans hother.symm)
    exact ⟨first, hfind, heq ▸ hsame⟩
  · rintro ⟨first, hfind, hsame⟩
    exact ⟨first, List.mem_of_find?_eq_some hfind, hsame⟩

-- As long as the error of a diagnosis is in a bundle, the bundle reports the diagnosis, unless an
-- earlier error with the same kind and message is in another file.
theorem reports_error_iff (classifier : Classifier) (result : BundleResult) (diagnosis : Diagnosis)
    {error : BundleError} (herror : error ∈ result.errors)
    (hsame : (classifier.classify error.raw).isSame diagnosis = true) :
    result.reports classifier diagnosis = true ↔
      ∀ first, (result.diagnosed classifier).find? (·.isAlike diagnosis) = some first →
        first.location.file?.map Path.normalize = diagnosis.location.file?.map Path.normalize := by
  have hmem : classifier.classify error.raw ∈ result.diagnosed classifier :=
    List.mem_map_of_mem herror
  obtain ⟨first, _, hfind, hkey⟩ := exists_find?_isAlike hmem (isAlike_of_isSame hsame)
  have hfile : first.isSame diagnosis = true ↔
      first.location.file?.map Path.normalize = diagnosis.location.file?.map Path.normalize := by
    have halike := isAlike_iff.mpr hkey
    rw [isAlike] at halike
    rw [isSame, halike, Bool.true_and, beq_iff_eq]
  rw [reports_iff_first]
  simp only [hfind, Option.some.injEq, exists_eq_left', forall_eq', hfile]

-- The error that a component is bound nowhere in a file.
def missingIn (component file : String) : BundleError :=
  ⟨.compile, s!"ReferenceError: {component} is not defined", some file, some 1, some 1⟩

-- A bundle that lacks one component in two files and another one in a third.
def missingTwice : BundleResult :=
  ⟨false, "", "", .empty,
    [missingIn "Card" "main.js", missingIn "Btn" "a.js", missingIn "Btn" "b.js"], [],
    some ⟨"main.js", true⟩⟩

theorem reports_error_iff_missingTwice :
    missingIn "Btn" "a.js" ∈ missingTwice.errors ∧
      missingTwice.reports .usual (Classifier.usual.classify (missingIn "Btn" "a.js").raw) = true := by
  have hmem : missingIn "Btn" "a.js" ∈ missingTwice.errors := by simp [missingTwice]
  have hfind : (missingTwice.diagnosed .usual).find?
      (·.isAlike (Classifier.usual.classify (missingIn "Btn" "a.js").raw)) =
        some (Classifier.usual.classify (missingIn "Btn" "a.js").raw) := by
    decide +kernel
  refine ⟨hmem, (reports_error_iff .usual missingTwice _ hmem (isSame_refl _)).mpr ?_⟩
  intro first hfirst
  rw [hfind, Option.some.injEq] at hfirst
  rw [hfirst]

-- The second file lacks the component too, but its diagnosis is not reported.
theorem reports_hides_missingTwice :
    missingIn "Btn" "b.js" ∈ missingTwice.errors ∧
      missingTwice.reports .usual (Classifier.usual.classify (missingIn "Btn" "b.js").raw) =
        false := by
  have hfind : (missingTwice.diagnosed .usual).find?
      (·.isAlike (Classifier.usual.classify (missingIn "Btn" "b.js").raw)) =
        some (Classifier.usual.classify (missingIn "Btn" "a.js").raw) := by
    decide +kernel
  have hother : (Classifier.usual.classify (missingIn "Btn" "a.js").raw).isSame
      (Classifier.usual.classify (missingIn "Btn" "b.js").raw) = false := by
    decide +kernel
  refine ⟨by simp [missingTwice], Bool.eq_false_iff.mpr fun hreports => ?_⟩
  obtain ⟨first, hfirst, hsame⟩ := reports_iff_first.mp hreports
  rw [hfind, Option.some.injEq] at hfirst
  rw [← hfirst, hother] at hsame
  cases hsame

end BundleResult

end LivePreview
