import LivePreview.Proofs.Linking.Course
import LivePreview.Proofs.Linking.Names
import LivePreview.Proofs.Pattern.Opening
import LivePreview.Proofs.Script.Components
import LivePreview.Proofs.Script.Issues

namespace LivePreview

open Text (Stands byteLength)

-- A line of the text starts at the byte offset, and behind its indent stands the word.
def Text.OpensLine (text word : List Char) (offset : Nat) : Prop :=
  ∃ front indent later, text = front ++ (indent ++ (word ++ later)) ∧ offset = byteLength front ∧
    (∀ c ∈ front.getLast?, c = '\n') ∧ ∀ c ∈ indent, c = ' ' ∨ c = '\t'

theorem Text.OpensLine.exists_placeAt? {text word : List Char} {offset : Nat}
    (h : OpensLine text word offset) : ∃ place, placeAt? text offset = some place := by
  obtain ⟨front, indent, later, rfl, rfl, _⟩ := h
  exact ⟨placeAfter front, by rw [placeAt?, before_append]; rfl⟩

namespace Script

open Pattern

theorem stands_of_undeclared {source : List Char} {tag : List Char × Nat}
    (h : tag ∈ undeclaredComponents source) : Stands source ('<' :: tag.1) tag.2 := by
  obtain ⟨front, later, hsource, hoffset, _⟩ := tagAt_of_undeclared h
  exact ⟨front, later, hsource, hoffset⟩

-- An import statement that is found starts a line.
theorem opensLine_of_importStatement {source : List Char} {found : Match}
    (h : found ∈ Form.importStatement.findAll source) :
    Text.OpensLine source "import".toList found.start.offset := by
  have hmatch := matchAt_of_mem_findAll h
  obtain ⟨front, hsource, hoffset, hlast⟩ := (within_of_mem_findAll h).1
  obtain ⟨_, _, text, hrest, hreads⟩ := sound_matchAt hmatch
  obtain ⟨_, _, rfl, hedge, hreads⟩ := hreads.exists_all
  obtain ⟨indent, _, rfl, hindent, hreads⟩ := hreads.exists_all
  obtain ⟨_, more, rfl, hword, _⟩ := hreads.exists_all
  refine ⟨front, indent, more ++ found.stop.rest, ?_, hoffset, fun c hc => ?_, fun c hc => ?_⟩
  · rw [hsource, hrest, hedge.eq_assert, hword.eq_chars]
    simp
  · have hline := holds_of_matchAt_assert hmatch
    rw [Assertion.holds, hlast, hc] at hline
    simpa using hline
  · simpa [CharClass.has, CharClass.ofList] using hindent.of_rounds_set.2 c hc

end Script

namespace Linking

open Script

-- What a problem with a script is about stands at the byte offset of its text: what is wrong with
-- the structure, the tag of the component, or the import that requires the export.
inductive Problem.ShowsAt (source : List Char) : Problem → Nat → Prop
  | broken {issue : Issue} (h : issue.ShowsIn source) :
      ShowsAt source (.broken issue.problem) issue.offset
  | undeclared {component : List Char} {offset : Nat} (h : Stands source ('<' :: component) offset) :
      ShowsAt source (.undeclared (String.ofList component)) offset
  | missingExport {target name : String} {offset : Nat}
      (h : Text.OpensLine source "import".toList offset) :
      ShowsAt source (.missingExport target name) offset

theorem Problem.ShowsAt.exists_placeAt? {source : List Char} {problem : Problem} {offset : Nat}
    (h : problem.ShowsAt source offset) :
    ∃ place, Text.placeAt? source offset = some place := by
  cases h with
  | broken h => exact h.exists_placeAt?
  | undeclared h => exact h.exists_placeAt?
  | missingExport h => exact h.exists_placeAt?

-- The finding points at a place in a script of the project at which its problem shows.
def Finding.Points (files : Sources) (finding : Finding) : Prop :=
  ∃ content offset place, files.get? finding.path = some content ∧
    finding.problem.ShowsAt content.toList offset ∧
    Text.placeAt? content.toList offset = some place ∧ finding.place? = some place

section

variable {files : Sources} {path : String} {finding : Finding}

theorem points_at {content : String} (hget : files.get? path = some content) {problem : Problem}
    {offset : Nat} (h : problem.ShowsAt content.toList offset) :
    (Finding.at problem path content.toList offset).Points files := by
  obtain ⟨place, hplace⟩ := h.exists_placeAt?
  exact ⟨content, offset, place, hget, h, hplace, hplace⟩

theorem points_of_mem_scriptFindings {content : String} (hget : files.get? path = some content)
    (h : finding ∈ scriptFindings files path content.toList) : finding.Points files := by
  unfold scriptFindings at h
  split at h
  · rename_i issue hissue
    obtain rfl := List.mem_singleton.mp h
    exact points_at hget (.broken (showsIn_of_structureIssue? hissue))
  · rcases List.mem_append.mp h with h | h
    · obtain ⟨tag, htag, rfl⟩ := List.mem_map.mp h
      exact points_at hget (.undeclared (stands_of_undeclared htag))
    · obtain ⟨found, hfound, h⟩ := List.mem_flatMap.mp h
      unfold importFindings at h
      split at h
      · cases h
      · split at h
        · split at h
          · obtain ⟨name, _, rfl⟩ := List.mem_map.mp h
            exact points_at hget (.missingExport (opensLine_of_importStatement hfound))
          · cases h
        · cases h

-- A finding about a module says that it is not there or that it is no data, or it points at a place
-- of the script.
theorem findingsOf_cases (h : finding ∈ findingsOf files path) :
    (finding.problem = .missingFile finding.path ∧ files.contains finding.path = false) ∨
      (FileKind.ofPath? finding.path = some .data ∧ ∃ error, finding.problem = .invalidData error) ∨
      finding.Points files := by
  unfold findingsOf at h
  split at h
  · rename_i hget
    obtain rfl := List.mem_singleton.mp h
    exact .inl ⟨rfl, by rw [Sources.contains, hget]; rfl⟩
  · rename_i content hget
    split at h
    · rename_i hdata
      split at h
      · cases h
      · obtain rfl := List.mem_singleton.mp h
        exact .inr (.inl ⟨hdata, _, rfl⟩)
    · cases h
    · exact .inr (.inr (points_of_mem_scriptFindings hget h))

end

-- If a project cannot be linked, whatever is said about a script points at what it names: the script
-- is a file of the project, and the place is that of an offset between two characters of its text at
-- which the closing bracket, the opening mark of the literal, the tag or the import stands. All else
-- that is said is about a module that is not there or about data.
theorem points_of_link_error {files : Sources} {entry : String} {findings : List Finding}
    (h : link files entry = .error findings) :
    ∀ finding ∈ findings,
      (finding.problem = .missingFile finding.path ∧ files.contains finding.path = false) ∨
      (FileKind.ofPath? finding.path = some .data ∧ ∃ error, finding.problem = .invalidData error) ∨
      finding.Points files := by
  intro finding hfinding
  obtain ⟨rfl, _⟩ := link_eq_error_iff.mp h
  obtain ⟨turns, hcourse, _⟩ := exists_course files entry
  rw [hcourse.findings_eq] at hfinding
  obtain ⟨turn, _, hfinding⟩ := List.mem_flatMap.mp hfinding
  exact findingsOf_cases hfinding

-- A script with two faults, and one behind a letter of two bytes and one in a template.
def fourFaults : Sources := .ofList
  [("main.js", "import './b.js';\n  import \x7b x \x7d from './c.js';\n<Btn />"), ("b.js", "é)"),
    ("c.js", "`$\x7b")]

def fourFindings : List Finding :=
  [⟨.undeclared "Btn", "main.js", some ⟨3, 1⟩⟩,
    ⟨.missingExport "c.js" "x", "main.js", some ⟨2, 1⟩⟩,
    ⟨.broken (.unexpectedCloser ')'), "b.js", some ⟨1, 2⟩⟩,
    ⟨.broken (.unclosed '\x7b' 1), "c.js", some ⟨1, 4⟩⟩]

theorem points_of_link_error_fourFaults :
    link fourFaults "main.js" = .error fourFindings ∧ ∀ finding ∈ fourFindings,
      (finding.problem = .missingFile finding.path ∧
        fourFaults.contains finding.path = false) ∨
      (FileKind.ofPath? finding.path = some .data ∧ ∃ error, finding.problem = .invalidData error) ∨
      finding.Points fourFaults := by
  have hfindings : (walkFrom fourFaults "main.js").findings = fourFindings := by decide +kernel
  have hlink : link fourFaults "main.js" = .error fourFindings :=
    link_eq_error_iff.mpr ⟨hfindings.symm, by decide⟩
  exact ⟨hlink, points_of_link_error hlink⟩

end Linking

end LivePreview
