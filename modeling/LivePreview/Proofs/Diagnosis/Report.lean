import LivePreview.Bundle.Error
import LivePreview.Diagnosis.Classifier
import LivePreview.Proofs.Diagnosis.Quiet
import LivePreview.Proofs.Linking.Course
import LivePreview.Proofs.Linking.Names
import LivePreview.Proofs.Script.Components

namespace LivePreview

open Linking Location

-- All paths of a project can be held by stack frames.
def PlainPaths (files : Sources) : Prop := ∀ path ∈ files.paths, Plain path.toList

namespace Linking

variable {files : Sources} {path : String} {finding : Finding}

-- A finding that is placed is about a file that is there, and its message is quiet.
theorem quiet_of_mem_scriptFindings {source : List Char} (hplain : PlainPaths files)
    (h : finding ∈ scriptFindings files path source) :
    finding.path = path ∧ Location.Quiet finding.problem.message.toList := by
  unfold scriptFindings at h
  split at h
  · rw [List.mem_singleton.mp h]
    exact ⟨rfl, quiet_broken _⟩
  · rcases List.mem_append.mp h with h | h
    · obtain ⟨tag, htag, rfl⟩ := List.mem_map.mp h
      refine ⟨rfl, quiet_undeclared ?_⟩
      rw [String.toList_ofList]
      exact Script.colon_notMem_component htag
    · obtain ⟨found, hfound, h⟩ := List.mem_flatMap.mp h
      unfold importFindings at h
      split at h
      · cases h
      · split at h
        · rename_i target htarget
          split at h
          · obtain ⟨name, hname, rfl⟩ := List.mem_map.mp h
            have hmem := Sources.mem_paths_iff.mpr (Sources.contains_of_resolve htarget)
            exact ⟨rfl, quiet_missingExport (hplain target hmem)
              (colon_notMem_required hfound (List.mem_filter.mp hname).1)⟩
          · cases h
        · cases h

theorem quiet_of_mem_findingsOf (hplain : PlainPaths files) (h : finding ∈ findingsOf files path)
    {place : Text.Place} (hplace : finding.place? = some place) :
    Plain finding.path.toList ∧ Location.Quiet finding.problem.message.toList := by
  unfold findingsOf at h
  split at h
  · rw [List.mem_singleton.mp h] at hplace
    cases hplace
  · rename_i content hget
    have hpath : Plain path.toList :=
      hplain path (Sources.mem_paths_iff.mpr (Sources.contains_iff.mpr ⟨content, hget⟩))
    split at h
    · split at h
      · cases h
      · rw [List.mem_singleton.mp h]
        exact ⟨hpath, quiet_invalidData _⟩
    · cases h
    · obtain ⟨rfl, hquiet⟩ := quiet_of_mem_scriptFindings hplain h
      exact ⟨hpath, hquiet⟩

end Linking

namespace BundleError

-- An error with a place is the message with a stack frame below it.
theorem raw_placed (error : BundleError) {file : String} {line column : Nat}
    (hfile : error.file? = some file) (hline : error.line? = some line)
    (hcolumn : error.column? = some column) :
    error.raw.toList = error.message.toList ++ "\n    ".toList ++
      frameText file.toList (toString line).toList (toString column).toList := by
  have htext : ∀ text : String, toString text = text := fun _ => rfl
  have hgap : "\n    at ".toList = "\n    ".toList ++ "at ".toList := by decide
  have hcolon : ":".toList = [':'] := rfl
  unfold raw
  rw [hfile, hline, hcolumn]
  simp only [String.toList_append, htext, hgap, hcolon, frameText, List.append_assoc,
    List.cons_append, List.nil_append]

end BundleError

-- Whatever keeps a project from being linked is found again by its diagnosis: in the same file, at
-- the same line and column.
theorem location_of_link_error {files : Sources} {entry : String} {findings : List Finding}
    {message : BuildMessage} {file : String} {line column : Nat} (classifier : Classifier)
    (hplain : PlainPaths files) (h : link files entry = .error findings)
    (hmem : message ∈ findings.map BuildMessage.ofFinding) (hfile : message.file? = some file)
    (hline : message.line? = some line) (hcolumn : message.column? = some column)
    (hfitsLine : Word.fits 32 line = true) (hfitsColumn : Word.fits 32 column = true) :
    ∃ named, (classifier.classify (BundleError.ofMessage message).raw).location =
        ⟨some named, some line, some column⟩ ∧ Path.normalize named = Path.normalize file := by
  obtain ⟨rfl, _⟩ := link_eq_error_iff.mp h
  obtain ⟨turns, hcourse, _⟩ := exists_course files entry
  obtain ⟨finding, hfinding, rfl⟩ := List.mem_map.mp hmem
  rw [hcourse.findings_eq] at hfinding
  obtain ⟨turn, _, hfinding⟩ := List.mem_flatMap.mp hfinding
  obtain ⟨place, hplace, _⟩ := Option.map_eq_some_iff.mp hline
  obtain ⟨hpath, hquiet⟩ := quiet_of_mem_findingsOf hplain hfinding hplace
  obtain rfl : finding.path = file := Option.some.inj hfile
  have hraw := BundleError.raw_placed (.ofMessage (.ofFinding finding)) rfl hline hcolumn
  have hlocation := ofMessage_report hquiet hpath hfitsLine hfitsColumn
  exact ⟨_, (congrArg ofMessage hraw).trans hlocation, normalize_barePath hpath⟩

theorem location_classify (classifier : Classifier) (raw : String) :
    (classifier.classify raw).location = ofMessage raw.toList := rfl

-- A script that is not balanced.
def unbalanced (path : String) : Sources := .ofList [(path, "(")]

theorem findings_unbalanced :
    (walkFrom (unbalanced "src/main.js") "src/main.js").findings =
      [⟨.broken (.unclosed '(' 1), "src/main.js", some ⟨1, 2⟩⟩] := by
  decide +kernel

theorem location_of_unbalanced :
    ∃ named, (Classifier.usual.classify (BundleError.ofMessage (.ofFinding
        ⟨.broken (.unclosed '(' 1), "src/main.js", some ⟨1, 2⟩⟩)).raw).location =
          ⟨some named, some 1, some 2⟩ ∧ Path.normalize named = Path.normalize "src/main.js" := by
  have hplain : PlainPaths (unbalanced "src/main.js") := by
    unfold PlainPaths
    decide
  have hlink := link_eq_error_iff.mpr ⟨findings_unbalanced.symm, by simp⟩
  exact location_of_link_error .usual hplain hlink (List.mem_singleton.mpr rfl) rfl rfl rfl
    (by decide) (by decide)

-- A blank in the path hides what stands before it: the diagnosis is about another file.
theorem location_of_blank_path :
    link (unbalanced "my file.js") "my file.js" =
        .error [⟨.broken (.unclosed '(' 1), "my file.js", some ⟨1, 2⟩⟩] ∧
      (Classifier.usual.classify (BundleError.ofMessage (.ofFinding
          ⟨.broken (.unclosed '(' 1), "my file.js", some ⟨1, 2⟩⟩)).raw).location =
        ⟨some "file.js", some 1, some 2⟩ ∧
      Path.normalize "file.js" ≠ Path.normalize "my file.js" := by
  have hraw := BundleError.raw_placed (.ofMessage (.ofFinding
    ⟨.broken (.unclosed '(' 1), "my file.js", some ⟨1, 2⟩⟩)) rfl rfl rfl
  have hmessage : (BundleError.ofMessage (.ofFinding
      ⟨.broken (.unclosed '(' 1), "my file.js", some ⟨1, 2⟩⟩)).message.toList =
        "Unexpected end of file: \"(\" opened on line 1 is never closed".toList := by
    decide
  have hlocation : ofMessage ("Unexpected end of file: \"(\" opened on line 1 is never closed".toList ++
      "\n    ".toList ++ frameText "my file.js".toList ['1'] ['2']) =
        ⟨some "file.js", some 1, some 2⟩ := by
    decide +kernel
  refine ⟨link_eq_error_iff.mpr ⟨?_, by simp⟩, ?_, ?_⟩
  · decide +kernel
  · rw [location_classify, hraw, hmessage]
    exact hlocation
  · decide +kernel

end LivePreview
