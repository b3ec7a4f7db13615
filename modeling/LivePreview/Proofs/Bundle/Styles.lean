import LivePreview.Proofs.Bundle.Mounting
import LivePreview.Proofs.Linking.Sheets

namespace LivePreview

namespace Text

theorem trimEnd_append_of_ne_nil {front back : List Char} (h : trimEnd back ≠ []) :
    trimEnd (front ++ back) = front ++ trimEnd back := by
  have hne : (back.reverse.dropWhile isBlank).isEmpty = false := by
    rw [List.isEmpty_eq_false_iff]
    intro hnil
    exact h (by rw [trimEnd, hnil, List.reverse_nil])
  rw [trimEnd, List.reverse_append, List.dropWhile_append, hne, if_neg Bool.false_ne_true,
    List.reverse_append, List.reverse_reverse, ← trimEnd]

-- What is trimmed at both ends is found in what is trimmed at its end.
theorem trim_infix_trimEnd (text : List Char) : trim text <:+: trimEnd text := by
  by_cases hnil : trim text = []
  · rw [hnil]
    exact List.nil_infix
  · have hsplit : text = text.takeWhile isBlank ++ trimStart text :=
      List.takeWhile_append_dropWhile.symm
    have hend : trimEnd text = text.takeWhile isBlank ++ trim text := by
      rw [trim, ← trimEnd_append_of_ne_nil hnil, ← hsplit]
    rw [hend]
    exact List.infix_append_right ..

end Text

open Linking

-- The section of a style sheet that nothing refers to.
def looseSection (file : String × String) : String :=
  s!"/* {file.1} */\n" ++ String.ofList (Text.trim file.2.toList) ++ "\n"

theorem trim_infix_section (sheet : StyleSheet) :
    Text.trim sheet.content.toList <:+: sheet.section.toList := by
  rw [StyleSheet.section, String.toList_append, String.toList_append, String.toList_ofList]
  exact (Text.trim_infix_trimEnd _).trans (List.infix_append ..)

theorem trim_infix_looseSection (file : String × String) :
    Text.trim file.2.toList <:+: (looseSection file).toList := by
  rw [looseSection, String.toList_append, String.toList_append, String.toList_ofList]
  exact List.infix_append ..

-- The files that have to be added to the styles.
structure Missing (css : String) (file : String × String) : Prop where
  style : FileKind.ofPath? file.1 = some .style
  absent : ¬Text.trim file.2.toList <:+: css.toList

theorem appendStyle_of_missing {css : String} {file : String × String} (h : Missing css file) :
    appendStyle css file = css ++ looseSection file := by
  obtain ⟨hstyle, habsent⟩ := h
  have hne : Text.trim file.2.toList ≠ [] := fun hnil => habsent (hnil ▸ List.nil_infix)
  unfold appendStyle
  rw [if_neg (by simp [hstyle, hne, Text.contains_iff, habsent]), looseSection]
  simp only [String.append_assoc]

theorem appendStyle_of_not_missing {css : String} {file : String × String}
    (h : ¬Missing css file) : appendStyle css file = css := by
  unfold appendStyle
  refine if_pos ?_
  by_contra hnot
  simp only [not_or, Decidable.not_not, Text.contains_iff] at hnot
  exact h ⟨hnot.1, hnot.2.2⟩

-- The pass over the files adds a section for each of those that are missing when their turn comes,
-- and leaves no style sheet missing.
theorem exists_missing (files : List (String × String)) (css : String) :
    ∃ loose : List (String × String), loose.Sublist files ∧
      files.foldl appendStyle css = css ++ String.join (loose.map looseSection) ∧
      (∀ file ∈ loose, Missing css file) ∧
      ∀ file ∈ files, FileKind.ofPath? file.1 = some .style →
        Text.trim file.2.toList <:+: (files.foldl appendStyle css).toList := by
  induction files generalizing css with
  | nil => exact ⟨[], .slnil, (String.append_empty).symm, nofun, nofun⟩
  | cons file files ih =>
      rw [List.foldl_cons]
      by_cases hmissing : Missing css file
      · rw [appendStyle_of_missing hmissing]
        obtain ⟨loose, hsub, hcss, hloose, hkept⟩ := ih (css ++ looseSection file)
        refine ⟨file :: loose, hsub.cons_cons file, ?_, ?_, ?_⟩
        · rw [hcss, List.map_cons, String.join_cons, String.append_assoc]
        · intro other hother
          rcases List.mem_cons.mp hother with rfl | hother
          · exact hmissing
          · obtain ⟨hstyle, habsent⟩ := hloose other hother
            refine ⟨hstyle, fun hwithin => habsent (hwithin.trans ?_)⟩
            rw [String.toList_append]
            exact (List.prefix_append _ _).isInfix
        · intro other hother hstyle
          rcases List.mem_cons.mp hother with rfl | hother
          · refine (trim_infix_looseSection other).trans ?_
            rw [hcss, String.toList_append, String.toList_append]
            exact List.infix_append ..
          · exact hkept other hother hstyle
      · rw [appendStyle_of_not_missing hmissing]
        obtain ⟨loose, hsub, hcss, hloose, hkept⟩ := ih css
        refine ⟨loose, hsub.cons file, hcss, hloose, fun other hother hstyle => ?_⟩
        rcases List.mem_cons.mp hother with rfl | hother
        · have hpresent : Text.trim other.2.toList <:+: css.toList := by
            by_contra habsent
            exact hmissing ⟨hstyle, habsent⟩
          refine hpresent.trans ?_
          rw [hcss, String.toList_append]
          exact (List.prefix_append _ _).isInfix
        · exact hkept other hother hstyle

-- The styles of a bundle, told by the turns of the walk through its files: a section for each style
-- sheet that was reached, in the order in which this happened first, then one for each of the loose
-- ones that are not there yet, in the order of the paths.
structure Styled (files : Sources) (turns : List Turn) (reached : List String)
    (loose : List (String × String)) (css : String) : Prop where
  css_eq : css = String.join (reached.map fun path => (sheetAt files path).section) ++
    String.join (loose.map looseSection)
  reached_eq : reached = sheetsAmong (turns.flatMap fun turn => turn.path :: turn.sheets files)
  distinct : (reached ++ loose.map (·.1)).Nodup
  ascending : (loose.map (·.1)).Pairwise (· < ·)
  reachedFiles : ∀ path ∈ reached, FileKind.ofPath? path = some .style ∧ files.contains path = true
  looseFiles : ∀ file ∈ loose, FileKind.ofPath? file.1 = some .style ∧
    files.get? file.1 = some file.2
  complete : ∀ path content, files.get? path = some content →
    FileKind.ofPath? path = some .style → Text.trim content.toList <:+: css.toList

theorem trim_infix_join {files : Sources} {reached : List String} {path content : String}
    (hget : files.get? path = some content) (hmem : path ∈ reached) :
    Text.trim content.toList <:+:
      (String.join (reached.map fun path => (sheetAt files path).section)).toList := by
  have hcontent : (sheetAt files path).content = content := by
    rw [sheetAt, Sources.contentOf, hget, Option.getD_some]
  rw [String.toList_join, List.flatMap_def, ← hcontent]
  refine (trim_infix_section _).trans (List.infix_of_mem_flatten ?_)
  exact List.mem_map_of_mem (List.mem_map_of_mem hmem)

theorem exists_styled {files : Sources} {entry : String} {output : Output} {turns : List Turn}
    (hcourse : Course files entry turns (walkFrom files entry))
    (hlink : link files entry = .ok output) :
    ∃ reached loose, Styled files turns reached loose
      (files.toList.foldl appendStyle output.css) := by
  obtain ⟨hfindings, rfl⟩ := link_eq_ok_iff.mp hlink
  obtain ⟨loose, hsub, hcss, hloose, hkept⟩ := exists_missing files.toList
    (String.join ((walkFrom files entry).styles.map StyleSheet.section))
  have hstyles : (walkFrom files entry).styles.map StyleSheet.section =
      (sheetsAmong (walkFrom files entry).modules).map fun path =>
        (sheetAt files path).section := by
    rw [hcourse.stylesTold, List.map_map]
    rfl
  have hget : ∀ file ∈ loose, files.get? file.1 = some file.2 :=
    fun file hfile => Sources.get?_eq_some_iff.mpr (hsub.subset hfile)
  have hascending : (loose.map (·.1)).Pairwise (· < ·) :=
    List.pairwise_map.mpr (files.ascending.sublist hsub)
  have hapart : ∀ file ∈ loose, file.1 ∉ sheetsAmong (walkFrom files entry).modules := by
    intro file hfile hmem
    refine (hloose file hfile).absent ?_
    rw [hstyles]
    exact trim_infix_join (hget file hfile) hmem
  refine ⟨sheetsAmong (walkFrom files entry).modules, loose, ?_, ?_, ?_, hascending, ?_, ?_, ?_⟩
  · rw [hcss, hstyles]
  · rw [hcourse.modules_eq_of_findings_nil hfindings]
  · refine List.nodup_append.mpr ⟨nodup_eraseDups _, hascending.imp String.ne_of_lt, ?_⟩
    intro path hpath other hother heq
    obtain ⟨file, hfile, rfl⟩ := List.mem_map.mp hother
    exact hapart file hfile (heq ▸ hpath)
  · intro path hpath
    obtain ⟨hmem, hkind⟩ := mem_sheetsAmong.mp hpath
    exact ⟨hkind, hcourse.contains_of_mem_modules hmem⟩
  · exact fun file hfile => ⟨(hloose file hfile).style, hget file hfile⟩
  · intro path content hcontent hkind
    exact hkept (path, content) (Sources.get?_eq_some_iff.mp hcontent) hkind

namespace Bundler

variable {options : BundleOptions} {bundler : Bundler Bool} {files : Sources}

end Bundler

-- A project with a style sheet that is imported twice, a loose one before it in the order of the
-- paths and a loose one that repeats part of another.
def looseSheets : Sources := .ofList
  [("main.js", "import './b.css';\nimport './b.css';\nr.mount(1)"), ("a.css", "p\x7b\x7d"),
    ("b.css", " i\x7b\x7d\nb\x7b\x7d "), ("c.css", "b\x7b\x7d")]

example : ((Bundler.onLinker {}).bundle looseSheets).1.css =
    "/* b.css */\n i\x7b\x7d\nb\x7b\x7d\n/* a.css */\np\x7b\x7d\n" := by
  decide +kernel

end LivePreview
