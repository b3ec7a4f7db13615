import LivePreview.Linking.Output
import LivePreview.Proofs.Linking.Turns
import Mathlib.Data.List.Nodup
import Mathlib.Data.List.Perm.Subperm

namespace LivePreview.Linking

open Script

-- The file provides the name, as far as its text tells.
def provided (files : Sources) (path name : String) : Bool :=
  (files.get? path).any fun content => (ExportSet.ofSource content.toList).provides name

-- The findings about an import statement: each export that it needs and that its target, being a
-- script of the project, does not provide.
def importFindings (files : Sources) (importer : String) (source : List Char)
    (found : Pattern.Match) : List Finding :=
  if found.has 1 then []
  else
    match files.resolve importer (String.ofList (found.group 3)) with
    | .file target =>
      if FileKind.ofPath? target = some .script then
        ((ImportClause.parse (found.group 2)).required.filter (!provided files target ·)).map
          fun name => .at (.missingExport target name) importer source found.start.offset
      else []
    | _ => []

-- The findings about a script. The first fault of its structure hides all others.
def scriptFindings (files : Sources) (path : String) (source : List Char) : List Finding :=
  match structureIssue? source with
  | some issue => [.at (.broken issue.problem) path source issue.offset]
  | none =>
    (undeclaredComponents source).map
        (fun tag => .at (.undeclared (String.ofList tag.1)) path source tag.2) ++
      (Form.importStatement.findAll source).flatMap (importFindings files path source)

-- The findings about a module by itself, without those about the modules that it mentions.
def findingsOf (files : Sources) (path : String) : List Finding :=
  match files.get? path with
  | none => [⟨.missingFile path, path, none⟩]
  | some content =>
    match FileKind.ofPath? path with
    | some .data =>
      match Json.parse content with
      | .ok _ => []
      | .error e => [⟨.invalidData e, path, some ⟨e.line, e.column⟩⟩]
    | some .style => []
    | _ => scriptFindings files path content.toList

section

variable {files : Sources} {path : String} {source : List Char}

theorem missingExports_eq {mention : Mention} {target : String}
    (hcontains : files.contains target = true) :
    Walk.missingExports files path source target mention =
      (mention.required.filter (!provided files target ·)).map fun name =>
        .at (.missingExport target name) path source mention.offset := by
  obtain ⟨content, hget⟩ := Sources.contains_iff.mp hcontains
  unfold Walk.missingExports provided
  rw [hget]
  dsimp only [Option.any_some]
  split
  · rename_i hnone
    rw [hnone]
    rfl
  · rfl

-- A mention that needs nothing finds nothing missing.
theorem mentionFindings_of_required_nil {mention : Mention} (h : mention.required = []) :
    mentionFindings files path source mention = [] := by
  unfold mentionFindings
  split
  · rename_i target htarget
    rw [missingExports_eq (Sources.contains_of_resolve htarget), h]
    simp
  · rfl

theorem mentionFindings_importMention? (found : Pattern.Match) :
    (Replacement.importMention? found).toList.flatMap (mentionFindings files path source) =
      importFindings files path source found := by
  unfold Replacement.importMention? importFindings
  split
  · rfl
  · simp only [Option.toList_some, List.flatMap_cons, List.flatMap_nil, List.append_nil,
      mentionFindings]
    cases htarget : files.resolve path (String.ofList (found.group 3)) with
    | file target =>
        dsimp only
        rw [missingExports_eq (Sources.contains_of_resolve htarget)]
    | _ => rfl

-- All that the mentions of a script find missing is told by its import statements.
theorem flatMap_mentionFindings (count : Nat) :
    (Importing.ofScript (registered? files path) count source).mentions.flatMap
        (mentionFindings files path source) =
      (Form.importStatement.findAll source).flatMap (importFindings files path source) := by
  obtain ⟨later, heq, hlater⟩ :=
    Importing.mentions_ofScript_imports (registered? files path) count source
  have hnil : later.flatMap (mentionFindings files path source) = [] := by
    rw [List.flatMap_eq_nil_iff]
    exact fun mention hmem => mentionFindings_of_required_nil (hlater mention hmem)
  rw [heq, List.flatMap_append, hnil, List.append_nil, List.filterMap_eq_flatMap_toList,
    List.flatMap_assoc]
  exact List.flatMap_congr fun found _ => mentionFindings_importMention? found

end

namespace Walk

private theorem findings_openScript (files : Sources) (walk : Walk) (path : String)
    (source : List Char)
    (hread : readable? files path = if structureIssue? source = none then some source else none)
    (hsource : sourceOf files path = source) :
    (openScript files walk path source).findings ++
        (Turn.mentions files ⟨path, walk.count⟩).flatMap
          (mentionFindings files path (sourceOf files path)) =
      walk.findings ++ scriptFindings files path source := by
  unfold openScript scriptFindings Turn.mentions Turn.script?
  rw [hread, hsource]
  cases structureIssue? source with
  | some issue => simp [report]
  | none =>
      dsimp only [report]
      rw [if_pos rfl, List.append_assoc]
      congr 2
      exact flatMap_mentionFindings walk.count

-- A turn adds the findings about its module, whatever else was found before it.
theorem findings_take (files : Sources) (walk : Walk) (path : String) :
    (take files walk path).findings = walk.findings ++ findingsOf files path := by
  rw [take_eq]
  refine (foldl_follow_field (·.findings) _ findings_follow _ _).trans ?_
  unfold opened findingsOf
  cases hget : files.get? path with
  | none => simp [report, Turn.mentions, Turn.script?, readable?, hget]
  | some content =>
      have hsource : sourceOf files path = content.toList := by simp [sourceOf, hget]
      dsimp only
      cases hkind : FileKind.ofPath? path with
      | none => exact findings_openScript _ _ _ _ (by simp [readable?, hget, hkind]) hsource
      | some kind =>
          cases kind with
          | script => exact findings_openScript _ _ _ _ (by simp [readable?, hget, hkind]) hsource
          | style => simp [Turn.mentions, Turn.script?, readable?, hget, hkind]
          | data =>
              have hmentions : Turn.mentions files ⟨path, walk.count⟩ = [] := by
                simp [Turn.mentions, Turn.script?, readable?, hget, hkind]
              rw [hmentions]
              cases Json.parse content <;> simp [report]

end Walk

-- A walk as it comes about: the modules whose turn has come, in order, and how far the walk is
-- then.
inductive Course (files : Sources) (entry : String) : List Turn → Walk → Prop
  | start : Course files entry [] (.start entry)
  | take {turns : List Turn} {walk : Walk} {path : String} {waiting : List String}
      (course : Course files entry turns walk) (hwaiting : walk.waiting = path :: waiting) :
      Course files entry (turns ++ [⟨path, walk.count⟩])
        (Walk.take files { walk with waiting := waiting } path)

namespace Turn

variable (files : Sources)

-- The number of imports bound once the modules have had their turns.
def countAfter : Nat → List String → Nat
  | count, [] => count
  | count, path :: paths => countAfter (next files ⟨path, count⟩) paths

-- The turns of several modules one after the other.
def along : Nat → List String → List Turn
  | _, [] => []
  | count, path :: paths => ⟨path, count⟩ :: along (next files ⟨path, count⟩) paths

theorem countAfter_concat (count : Nat) (paths : List String) (path : String) :
    countAfter files count (paths ++ [path]) = next files ⟨path, countAfter files count paths⟩ := by
  induction paths generalizing count with
  | nil => rfl
  | cons first paths ih => exact ih _

theorem along_append (count : Nat) (paths later : List String) :
    along files count (paths ++ later) =
      along files count paths ++ along files (countAfter files count paths) later := by
  induction paths generalizing count with
  | nil => rfl
  | cons first paths ih => exact congrArg (_ :: ·) (ih _)

end Turn

-- The line as a turn leaves and finds it: what was taken and what waits was seen in this order,
-- each once, and but for the entry it is a file of the project that is no style sheet.
structure InLine (files : Sources) (entry : String) (taken : List String) (walk : Walk) : Prop where
  order : (taken ++ walk.waiting).Sublist walk.seen
  distinct : walk.seen.Nodup
  known : ∀ path ∈ taken ++ walk.waiting, path = entry ∨
    (files.contains path = true ∧ FileKind.ofPath? path ≠ some .style)

namespace InLine

variable {files : Sources} {entry : String} {taken : List String} {walk : Walk}

private theorem nodup_concat {names : List String} {name : String} (h : names.Nodup)
    (hnew : name ∉ names) : (names ++ [name]).Nodup := by
  rw [← List.concat_eq_append]
  exact h.concat hnew

theorem of_eq {other : Walk} (h : InLine files entry taken walk)
    (hwaiting : other.waiting = walk.waiting) (hseen : other.seen = walk.seen) :
    InLine files entry taken other := by
  obtain ⟨order, distinct, known⟩ := h
  rw [← hwaiting, ← hseen] at order
  exact ⟨order, hseen ▸ distinct, hwaiting ▸ known⟩

theorem report (h : InLine files entry taken walk) (findings : List Finding) :
    InLine files entry taken (walk.report findings) := h.of_eq rfl rfl

theorem visit (h : InLine files entry taken walk) {path : String}
    (hcontains : files.contains path = true) (hkind : FileKind.ofPath? path ≠ some .style) :
    InLine files entry taken (walk.visit path) := by
  unfold Walk.visit
  split
  · exact h
  · rename_i hnew
    rw [List.contains_iff_mem] at hnew
    constructor
    · rw [← List.append_assoc]
      exact h.order.append (List.Sublist.refl _)
    · exact nodup_concat h.distinct hnew
    · intro other hmem
      rw [← List.append_assoc, List.mem_append, List.mem_singleton] at hmem
      rcases hmem with hmem | rfl
      · exact h.known other hmem
      · exact .inr ⟨hcontains, hkind⟩

theorem follow (h : InLine files entry taken walk) (importer : String) (source : List Char)
    (mention : Mention) :
    InLine files entry taken (Walk.follow files importer source walk mention) := by
  rcases Walk.follow_cases files importer source walk mention with
    ⟨path, content, htarget, hkind, heq⟩ | ⟨path, htarget, hkind, heq⟩ |
    ⟨id, body, htarget, heq⟩ | ⟨name, htarget, heq⟩ <;>
    rw [heq]
  · exact h.of_eq (Walk.waiting_style ..) (Walk.seen_style ..)
  · exact (h.report _).visit (Sources.contains_of_resolve htarget) hkind
  · split
    · exact h
    · rename_i hnew
      rw [List.contains_iff_mem] at hnew
      exact ⟨h.order.trans (List.sublist_append_left _ _), nodup_concat h.distinct hnew, h.known⟩
  · exact h.of_eq rfl rfl

theorem foldl_follow (h : InLine files entry taken walk) (importer : String) (source : List Char)
    (mentions : List Mention) :
    InLine files entry taken (mentions.foldl (Walk.follow files importer source) walk) :=
  List.foldlRecOn mentions _ h fun _ hwalk mention _ => hwalk.follow importer source mention

theorem take {path : String} {waiting : List String} (h : InLine files entry taken walk)
    (hwaiting : walk.waiting = path :: waiting) :
    InLine files entry (taken ++ [path])
      (Walk.take files { walk with waiting := waiting } path) := by
  have hhead : InLine files entry (taken ++ [path]) { walk with waiting := waiting } := by
    have hsplit : taken ++ walk.waiting = taken ++ [path] ++ waiting := by simp [hwaiting]
    obtain ⟨order, distinct, known⟩ := h
    rw [hsplit] at order known
    exact ⟨order, distinct, known⟩
  rw [Walk.take_eq]
  obtain ⟨hline, hseen, _⟩ := Walk.opened_same files { walk with waiting := waiting } path
  exact ((hhead.of_eq hline hseen).foldl_follow _ _ _).of_eq rfl rfl

-- There is never more in line than the files and the entry.
theorem length_le (h : InLine files entry taken walk) :
    taken.length + walk.waiting.length ≤ files.size + 1 := by
  have hnodup : (taken ++ walk.waiting).Nodup := h.distinct.sublist h.order
  have hsub : taken ++ walk.waiting ⊆ entry :: files.paths := by
    intro path hmem
    rcases h.known path hmem with rfl | ⟨hcontains, _⟩
    · exact List.mem_cons_self
    · exact List.mem_cons_of_mem _ (Sources.mem_paths_iff.mpr hcontains)
  have hle := (hnodup.subperm hsub).length_le
  rw [List.length_append, List.length_cons, Sources.paths, List.length_map] at hle
  exact hle

end InLine

namespace Course

variable {files : Sources} {entry : String} {turns : List Turn} {walk : Walk}

theorem inLine (h : Course files entry turns walk) :
    InLine files entry (turns.map (·.path)) walk := by
  induction h with
  | start => exact ⟨List.Sublist.refl _, List.nodup_singleton _, by simp [Walk.start]⟩
  | take course hwaiting ih =>
      rw [List.map_append]
      exact ih.take hwaiting

-- A turn knows how many imports the turns before it have bound.
theorem count_eq (h : Course files entry turns walk) :
    walk.count = Turn.countAfter files 0 (turns.map (·.path)) := by
  induction h with
  | start => rfl
  | take course hwaiting ih =>
      rw [Walk.count_take, List.map_append, List.map_singleton, Turn.countAfter_concat, ← ih]

theorem turns_eq (h : Course files entry turns walk) :
    turns = Turn.along files 0 (turns.map (·.path)) := by
  induction h with
  | start => rfl
  | take course hwaiting ih =>
      rw [List.map_append, Turn.along_append, ← ih, ← course.count_eq]
      rfl

-- The findings of a walk are those about the modules taken, in the order of the turns.
theorem findings_eq (h : Course files entry turns walk) :
    walk.findings = turns.flatMap fun turn => findingsOf files turn.path := by
  induction h with
  | start => rfl
  | take course hwaiting ih =>
      rw [Walk.findings_take, List.flatMap_append, ← ih]
      simp

theorem modules_eq (h : Course files entry turns walk) :
    walk.modules = turns.flatMap fun turn =>
      (if files.contains turn.path then [turn.path] else []) ++ turn.sheets files := by
  induction h with
  | start => rfl
  | take course hwaiting ih =>
      rw [Walk.modules_take, List.flatMap_append, ← ih]
      simp

-- What is needed from outside is told by the names that the modules mention, turn by turn.
theorem outside_eq (h : Course files entry turns walk) :
    walk.outside = Outside.after files .empty (turns.flatMap fun turn =>
      (turn.mentions files).map fun mention => (turn.path, mention.name)) := by
  induction h with
  | start => rfl
  | take course hwaiting ih =>
      rw [Walk.outside_take, List.flatMap_append, Outside.after_append, ← ih]
      simp

-- The packages that are needed are those that a module taken mentions.
theorem mem_packages_iff (h : Course files entry turns walk) {name : String} :
    name ∈ walk.outside.packages.toList ↔ ∃ turn ∈ turns, .package name ∈ turn.targets files := by
  rw [h.outside_eq, Outside.mem_packages_after]
  unfold Turn.targets
  constructor
  · rintro (hnil | ⟨importer, hmem, hexternal, hbare⟩)
    · exact absurd hnil List.not_mem_nil
    · obtain ⟨turn, hturn, hmem⟩ := List.mem_flatMap.mp hmem
      obtain ⟨mention, hmention, heq⟩ := List.mem_map.mp hmem
      obtain ⟨rfl, rfl⟩ := Prod.mk.inj heq
      exact ⟨turn, hturn, List.mem_map.mpr
        ⟨mention, hmention, Sources.resolve_eq_package_iff.mpr ⟨rfl, hexternal, hbare⟩⟩⟩
  · rintro ⟨turn, hturn, htarget⟩
    obtain ⟨mention, hmention, hresolve⟩ := List.mem_map.mp htarget
    obtain ⟨rfl, hexternal, hbare⟩ := Sources.resolve_eq_package_iff.mp hresolve
    exact .inr ⟨turn.path, List.mem_flatMap.mpr
      ⟨turn, hturn, List.mem_map.mpr ⟨mention, hmention, rfl⟩⟩, hexternal, hbare⟩

theorem exists_run (h : Course files entry turns walk) (most : Nat) :
    ∃ later, Course files entry (turns ++ later) (Walk.run files most walk) ∧
      ((Walk.run files most walk).waiting = [] ∨ later.length = most) := by
  induction most generalizing turns walk with
  | zero => exact ⟨[], by simpa [Walk.run] using h, .inr rfl⟩
  | succ most ih =>
      unfold Walk.run
      cases hwaiting : walk.waiting with
      | nil => exact ⟨[], by simpa using h, .inl hwaiting⟩
      | cons path waiting =>
          obtain ⟨later, hcourse, hend⟩ := ih (h.take hwaiting)
          rw [List.append_assoc] at hcourse
          refine ⟨_, hcourse, hend.imp id fun hlength => ?_⟩
          rw [List.length_append, hlength, List.length_singleton, Nat.add_comm]

end Course

-- The whole walk ends because nothing waits any more, after a turn for each file and the entry at
-- the most.
theorem exists_course (files : Sources) (entry : String) :
    ∃ turns, Course files entry turns (walkFrom files entry) ∧
      (walkFrom files entry).waiting = [] ∧ turns.length ≤ files.size + 1 := by
  have hstart : Course files entry [] (.start entry) := .start
  obtain ⟨turns, hcourse, hend⟩ := hstart.exists_run (files.size + 1)
  have hle : turns.length + (walkFrom files entry).waiting.length ≤ files.size + 1 := by
    simpa [walkFrom] using hcourse.inLine.length_le
  refine ⟨turns, hcourse, ?_, by omega⟩
  rcases hend with hend | hend
  · exact hend
  · exact List.length_eq_zero_iff.mp (by omega)

theorem link_eq_ok_iff {files : Sources} {entry : String} {output : Output} :
    link files entry = .ok output ↔ (walkFrom files entry).findings = [] ∧
      output = ⟨scriptText (walkFrom files entry).definitions entry,
        String.join ((walkFrom files entry).styles.map StyleSheet.section), [],
        (walkFrom files entry).modules⟩ := by
  unfold link Walk.output
  split
  · rename_i hnil
    simp only [hnil, true_and, Except.ok.injEq]
    exact eq_comm
  · rename_i hfound
    simp [hfound]

theorem exists_link_eq_ok_iff {files : Sources} {entry : String} :
    (∃ output, link files entry = .ok output) ↔ (walkFrom files entry).findings = [] :=
  ⟨fun ⟨_, h⟩ => (link_eq_ok_iff.mp h).1, fun h => ⟨_, link_eq_ok_iff.mpr ⟨h, rfl⟩⟩⟩

theorem link_eq_error_iff {files : Sources} {entry : String} {findings : List Finding} :
    link files entry = .error findings ↔
      findings = (walkFrom files entry).findings ∧ findings ≠ [] := by
  unfold link Walk.output
  split
  · rename_i hnil
    rw [hnil]
    simp
  · rename_i hfound
    rw [Except.error.injEq]
    exact ⟨fun h => ⟨h.symm, h ▸ hfound⟩, fun h => h.1.symm⟩

end LivePreview.Linking
