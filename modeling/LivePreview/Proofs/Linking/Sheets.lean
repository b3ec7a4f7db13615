import LivePreview.Proofs.Linking.Reach

namespace LivePreview

-- The file at the path is a style sheet.
def FileKind.isStyle (path : String) : Bool := FileKind.ofPath? path == some .style

-- The content at a path, empty if there is no file.
def Sources.contentOf (files : Sources) (path : String) : String := (files.get? path).getD ""

namespace Linking

-- The style sheets of a project among some paths, each once, in the order in which they are first
-- named.
def sheetsAmong (paths : List String) : List String := (paths.filter FileKind.isStyle).eraseDups

theorem nodup_eraseDups (names : List String) : names.eraseDups.Nodup := by
  induction names using List.reverseRecOn with
  | nil => exact List.nodup_nil
  | append_singleton names name ih =>
      by_cases hmem : name ∈ names
      · rwa [eraseDups_concat_of_mem hmem]
      · rw [eraseDups_concat_of_notMem hmem, ← List.concat_eq_append]
        exact ih.concat fun hin => hmem (List.mem_eraseDups.mp hin)

theorem mem_sheetsAmong {paths : List String} {path : String} :
    path ∈ sheetsAmong paths ↔ path ∈ paths ∧ FileKind.ofPath? path = some .style := by
  rw [sheetsAmong, List.mem_eraseDups, List.mem_filter, FileKind.isStyle, beq_iff_eq]

theorem sheetsAmong_concat_of_ne {paths : List String} {path : String}
    (h : FileKind.ofPath? path ≠ some .style) :
    sheetsAmong (paths ++ [path]) = sheetsAmong paths := by
  simp [sheetsAmong, FileKind.isStyle, h]

theorem sheetsAmong_concat {paths : List String} {path : String}
    (h : FileKind.ofPath? path = some .style) :
    sheetsAmong (paths ++ [path]) =
      if path ∈ sheetsAmong paths then sheetsAmong paths else sheetsAmong paths ++ [path] := by
  have hfilter : (paths ++ [path]).filter FileKind.isStyle =
      paths.filter FileKind.isStyle ++ [path] := by
    rw [List.filter_append, List.filter_singleton, FileKind.isStyle, h]
    rfl
  unfold sheetsAmong
  rw [hfilter]
  split
  · rename_i hmem
    exact eraseDups_concat_of_mem (List.mem_eraseDups.mp hmem)
  · rename_i hnew
    exact eraseDups_concat_of_notMem fun hmem => hnew (List.mem_eraseDups.mpr hmem)

-- The style sheet at a path.
def sheetAt (files : Sources) (path : String) : StyleSheet := ⟨path, files.contentOf path⟩

-- The styles of a walk are the style sheets among its modules.
def StylesTold (files : Sources) (walk : Walk) : Prop :=
  walk.styles = (sheetsAmong walk.modules).map (sheetAt files)

namespace StylesTold

variable {files : Sources} {walk other : Walk} {path content : String}

theorem of_eq (h : StylesTold files walk) (hstyles : other.styles = walk.styles)
    (hmodules : other.modules = walk.modules) : StylesTold files other := by
  rw [StylesTold, hstyles, hmodules, h]

theorem module (h : StylesTold files walk) (hkind : FileKind.ofPath? path ≠ some .style) :
    StylesTold files { walk with modules := walk.modules ++ [path] } := by
  rw [StylesTold, sheetsAmong_concat_of_ne hkind]
  exact h

-- A style sheet is put in once, however often it is mentioned.
theorem style (h : StylesTold files walk) (hget : files.get? path = some content)
    (hkind : FileKind.ofPath? path = some .style) :
    StylesTold files { walk.style path content with modules := walk.modules ++ [path] } := by
  have hany : walk.styles.any (·.path == path) = true ↔ path ∈ sheetsAmong walk.modules := by
    rw [h]
    simp [sheetAt]
  have hsheet : sheetAt files path = ⟨path, content⟩ := by
    rw [sheetAt, Sources.contentOf, hget, Option.getD_some]
  rw [StylesTold, sheetsAmong_concat hkind, Walk.style]
  split
  · rename_i hseen
    rw [if_pos (hany.mp hseen)]
    exact h
  · rename_i hnew
    rw [if_neg fun hmem => hnew (hany.mpr hmem), List.map_append, List.map_singleton, hsheet]
    exact congrArg (· ++ _) h

theorem visit (h : StylesTold files walk) : StylesTold files (walk.visit path) := by
  unfold Walk.visit
  split
  · exact h
  · exact h

theorem follow (h : StylesTold files walk) (importer : String) (source : List Char)
    (mention : Mention) : StylesTold files (Walk.follow files importer source walk mention) := by
  unfold Walk.follow
  cases htarget : files.resolve importer mention.name with
  | file path =>
      obtain ⟨content, hget⟩ := Sources.contains_iff.mp (Sources.contains_of_resolve htarget)
      dsimp only
      split
      · rename_i hkind
        rw [hget]
        exact StylesTold.style (StylesTold.of_eq h rfl rfl) hget hkind
      · exact StylesTold.visit (StylesTold.of_eq h rfl rfl)
      · exact StylesTold.visit (StylesTold.of_eq h rfl rfl)
  | asset id body =>
      dsimp only
      split
      · exact h
      · exact h
  | package name => exact h
  | unknown name => exact h

theorem takeScript (h : StylesTold files walk) (source : List Char) :
    StylesTold files (Walk.takeScript files walk path source) := by
  unfold Walk.takeScript
  split
  · exact h
  · exact List.foldlRecOn (motive := StylesTold files) _ _ (of_eq h rfl rfl)
      fun _ hwalk mention _ => hwalk.follow path source mention

theorem take (h : StylesTold files walk) (path : String) :
    StylesTold files (Walk.take files walk path) := by
  unfold Walk.take
  cases hget : files.get? path with
  | none => exact h
  | some content =>
      dsimp only
      cases hkind : FileKind.ofPath? path with
      | none => exact (h.module (by simp [hkind])).takeScript _
      | some kind =>
          cases kind with
          | style =>
              have hsheet :
                  Walk.style { walk with modules := walk.modules ++ [path] } path content =
                    { walk.style path content with modules := walk.modules ++ [path] } := by
                unfold Walk.style
                split <;> rfl
              dsimp only
              rw [hsheet]
              exact h.style hget hkind
          | script => exact (h.module (by simp [hkind])).takeScript _
          | data =>
              have hmodule : StylesTold files { walk with modules := walk.modules ++ [path] } :=
                h.module (by simp [hkind])
              dsimp only [Walk.takeData]
              split
              · exact hmodule
              · exact hmodule

end StylesTold

theorem Course.stylesTold {files : Sources} {entry : String} {turns : List Turn} {walk : Walk}
    (h : Course files entry turns walk) : StylesTold files walk := by
  induction h with
  | start => rfl
  | @take turns walk path waiting course hwaiting ih =>
      have hhead : StylesTold files { walk with waiting := waiting } := ih
      exact hhead.take path

theorem Course.contains_of_mem_modules {files : Sources} {entry path : String}
    {turns : List Turn} {walk : Walk} (h : Course files entry turns walk)
    (hmem : path ∈ walk.modules) : files.contains path = true := by
  rw [h.modules_eq] at hmem
  obtain ⟨turn, _, hmem⟩ := List.mem_flatMap.mp hmem
  rcases List.mem_append.mp hmem with hmem | hsheet
  · split at hmem
    · rename_i hcontains
      rwa [List.mem_singleton.mp hmem]
    · cases hmem
  · obtain ⟨mention, _, htarget⟩ := List.mem_map.mp (Turn.mem_sheets_iff.mp hsheet).1
    exact Sources.contains_of_resolve htarget

end Linking

end LivePreview
