import LivePreview.Proofs.Linking.Exporting
import LivePreview.Proofs.Linking.Registry

namespace LivePreview.Linking

open ImportPatch (IsGap)

-- What may stand behind the word `export` and a blank where a statement exports something.
def exportedWords : List String :=
  ["default", "const", "let", "var", "function", "class", "enum", "\x7b", "*"]

-- Somewhere in the text an export is left.
def LeftOver (text : List Char) : Prop :=
  ∃ front gap word later, text = front ++ ("export".toList ++ (gap ++ (word.toList ++ later))) ∧
    IsGap gap ∧ word ∈ exportedWords

-- In the text, with a break behind it, a blank behind `export` has an equals sign behind itself.
def Settled (text : List Char) : Prop :=
  ∀ front c rest, Text.isBlank c = true →
    text ++ ['\n'] = front ++ ("export".toList ++ c :: rest) → rest.head? = some '='

section Settled

variable {text line later : List Char}

theorem Quiet.settled (h : Quiet text) : Settled text := by
  intro front c rest hc hsplit
  refine absurd ⟨front, rest, ?_⟩ (h c hc)
  rw [hsplit, List.append_assoc, List.append_assoc]
  rfl

theorem Settled.append_line (hline : Settled line) (hlater : Settled later) :
    Settled (line ++ '\n' :: later) := by
  intro front c rest hc hsplit
  have hwhole : line ++ ['\n'] ++ (later ++ ['\n']) = front ++ ("export".toList ++ c :: rest) := by
    rw [← hsplit]
    simp
  rcases exists_of_line_append hwhole with ⟨extra, _, hextra⟩ | ⟨more, hmore, rfl⟩
  · exact hlater extra c rest hc hextra
  · have hhead := hline front c more hc hmore
    cases more with
    | nil => cases hhead
    | cons d more => exact hhead

theorem Settled.intercalate {lines : List (List Char)} (h : ∀ line ∈ lines, Settled line) :
    Settled (['\n'].intercalate lines) := by
  induction lines with
  | nil => exact Quiet.nil.settled
  | cons line lines ih =>
      obtain ⟨hline, hlines⟩ := List.forall_mem_cons.mp h
      cases lines with
      | nil => rwa [List.intercalate_singleton]
      | cons second lines =>
          rw [List.intercalate_cons_cons, List.append_assoc, List.singleton_append]
          exact hline.append_line (ih hlines)

theorem Settled.not_leftOver (h : Settled text) : ¬LeftOver text := by
  rintro ⟨front, gap, word, later, rfl, hgap, hword⟩
  obtain ⟨c, gap, rfl⟩ := List.exists_cons_of_ne_nil hgap.nonempty
  obtain ⟨hc, hblank⟩ := List.forall_mem_cons.mp hgap.blank
  have hhead := h front c (gap ++ (word.toList ++ (later ++ ['\n']))) hc (by
    simp only [List.append_assoc, List.cons_append])
  cases gap with
  | nil =>
      have hwords : ∀ word ∈ exportedWords, word.toList ≠ [] ∧ word.toList.head? ≠ some '=' := by
        decide
      obtain ⟨hne, hother⟩ := hwords word hword
      rw [List.nil_append, List.head?_append_of_ne_nil _ hne] at hhead
      exact hother hhead
  | cons d gap =>
      obtain rfl : d = '=' := Option.some.inj hhead
      have hequals := hblank '=' List.mem_cons_self
      revert hequals
      decide

end Settled

section Assignments

variable {text part exported value : List Char}

-- Nowhere in the text a blank follows `export`.
def Solid (text : List Char) : Prop :=
  ∀ c, Text.isBlank c = true → ¬"export".toList ++ [c] <:+: text

theorem Quiet.solid (h : Quiet text) (hpart : part <:+: text) : Solid part := fun c hc hwithin =>
  h c hc (hwithin.trans (hpart.trans (List.prefix_append _ _).isInfix))

theorem solid_of_blank (h : ∀ c ∈ text, Text.isBlank c = false) : Solid text := by
  intro c hc hwithin
  have hnot := h c (hwithin.subset (by simp))
  rw [hc] at hnot
  cases hnot

-- What does not hold the character stands in front of it or behind it.
theorem exists_of_append_cons {word front back first rest : List Char} {d : Char} (hd : d ∉ word)
    (h : first ++ d :: back = front ++ (word ++ rest)) :
    (∃ more, first = front ++ (word ++ more) ∧ rest = more ++ d :: back) ∨ word <:+: d :: back := by
  rcases List.append_eq_append_iff.mp h with ⟨extra, _, hextra⟩ | ⟨extra, rfl, hextra⟩
  · exact .inr ⟨extra, rest, by rw [hextra, List.append_assoc]⟩
  rcases List.append_eq_append_iff.mp hextra with ⟨more, rfl, hmore⟩ | ⟨more, rfl, hmore⟩
  · exact .inl ⟨more, rfl, hmore⟩
  · cases more with
    | nil => exact .inl ⟨[], by simp, hmore.symm⟩
    | cons e more =>
        obtain rfl : d = e := (List.cons.inj hmore).1
        exact absurd (by simp) hd

-- In an assignment the blank behind the name of the export is the only one that may follow `export`.
theorem settled_assignment (hexported : Solid exported) (hvalue : Solid value) :
    Settled (assignment exported value) := by
  intro front c rest hc hsplit
  have hequals : " = ".toList = [' ', '=', ' '] := by decide
  have hspelled : "exports.".toList ++ exported ++ " = ".toList ++ value ++ [';'] ++ ['\n'] =
      front ++ ("export".toList ++ c :: rest) := hsplit
  rw [hequals] at hspelled
  have hwhole : ("exports.".toList ++ exported ++ [' ']) ++ '=' :: (' ' :: (value ++ ';' :: ['\n'])) =
      front ++ ("export".toList ++ [c] ++ rest) := by
    simpa only [List.append_assoc, List.cons_append, List.nil_append] using hspelled
  rcases exists_of_append_cons (not_mem_export_blank hc (by decide) (by decide)) hwhole with
    ⟨more, hfirst, rfl⟩ | hbehind
  · rcases List.eq_nil_or_concat' more with rfl | ⟨more, d, rfl⟩
    · rfl
    · -- Then the word stands in the name of the export.
      have hends : ("exports.".toList ++ exported) ++ [' '] =
          (front ++ ("export".toList ++ [c]) ++ more) ++ [d] := by
        simpa only [List.append_assoc] using hfirst
      have hname := (List.append_inj' hends rfl).1
      have hwithin : "export".toList ++ [c] <:+: "export".toList ++ 's' :: ('.' :: exported) :=
        ⟨front, more, hname.symm⟩
      have hbehind := (Text.infix_of_infix_append_cons (not_mem_export_blank hc (by decide) (by decide))
        hwithin).resolve_left fun hshort => absurd hshort.length_le (by simp)
      have hdot : 'e' ∉ ['.'] := by decide
      exact absurd (Text.infix_of_infix_append hdot hbehind) (hexported c hc)
  · have hspaces : 'e' ∉ ['=', ' '] := by decide
    have hwithin := Text.infix_of_infix_append hspaces hbehind
    rcases Text.infix_of_infix_append_cons (not_mem_export_blank hc (by decide) (by decide)) hwithin with
      hwithin | hwithin
    · exact absurd hwithin (hvalue c hc)
    · exact absurd hwithin.length_le (by simp)

theorem IsDeclared.solid (h : IsDeclared value) : Solid value := by
  refine solid_of_blank fun c hc => ?_
  obtain ⟨hfirst, hrest⟩ := h
  by_contra hblank
  have hblank : Text.isBlank c = true := by simpa using hblank
  rcases List.mem_cons.mp hc with rfl | hc
  · rw [not_opensName_of_isBlank hblank] at hfirst
    cases hfirst
  · have hother := hrest c hc
    rw [not_inIdentifier_of_isBlank hblank] at hother
    cases hother

theorem infix_trim (text : List Char) : Text.trim text <:+: text := by
  obtain ⟨gap, gap', hsplit, _⟩ := Text.exists_trim text
  exact ⟨gap, gap', by rw [List.append_assoc, ← hsplit]⟩

theorem Renaming.infix_of_ofItems {items : List Char} {item : Renaming}
    (h : item ∈ ofItems items) : item.name <:+: items ∧ item.newName <:+: items := by
  obtain ⟨piece, hpiece, hof⟩ := List.mem_filterMap.mp h
  have hpart := infix_intercalate [','] hpiece
  rw [List.intercalate_splitOn] at hpart
  have htrim := (infix_trim piece).trans hpart
  unfold ofItem? at hof
  dsimp only at hof
  split at hof
  · cases hof
  · split at hof
    · rename_i name newName hcut
      cases hof
      have hsplit := Text.eq_append_of_cut? hcut
      rw [hsplit] at htrim
      have hname : name <:+: name ++ " as ".toList ++ newName :=
        ⟨[], " as ".toList ++ newName, by simp only [List.nil_append, List.append_assoc]⟩
      exact ⟨(infix_trim name).trans (hname.trans htrim),
        (infix_trim newName).trans ((List.suffix_append _ _).isInfix.trans htrim)⟩
    · cases hof
      exact ⟨htrim, htrim⟩

-- Every assignment that a part leaves is settled.
theorem Chunk.Laid.settled_assigned {chunk : Chunk} (h : chunk.Laid) {kind : ExportKind}
    {line : List Char} (hline : line ∈ chunk.assigned kind) : Settled line := by
  cases h with
  | plain => cases hline
  | @exporting indent gap text exported hindent hgap hstands hquiet =>
      rw [Chunk.assigned] at hline
      split at hline
      · cases hstands with
        | @declared gap heading name _ _ hname =>
            obtain rfl := List.mem_singleton.mp hline
            have hdefault : Solid "default".toList := solid_of_blank (by decide)
            exact settled_assignment hdefault hname.solid
        | expression => cases hline
        | value _ hname =>
            obtain rfl := List.mem_singleton.mp hline
            exact settled_assignment hname.solid hname.solid
        | type => cases hline
        | @list items tail =>
            obtain ⟨item, hitem, rfl⟩ := List.mem_map.mp hline
            have hitems : items <:+: (Export.list items tail).words ++ text :=
              ⟨['\x7b'], '\x7d' :: (tail ++ text), by simp [Export.words_list]⟩
            obtain ⟨hname, hnewName⟩ := Renaming.infix_of_ofItems hitem
            exact settled_assignment (hquiet.solid (hnewName.trans hitems))
              (hquiet.solid (hname.trans hitems))
      · cases hline

-- What becomes of a part is quiet.
theorem Chunk.Laid.quiet_result {chunk : Chunk} (h : chunk.Laid) : Quiet chunk.result := by
  cases h with
  | plain h => exact h
  | exporting hindent _ hstands hquiet => exact (hstands.quiet_result hquiet).append_indent hindent

-- Where every export starts a line, none is left.
theorem not_leftOver_assignExports {chunks : List Chunk} (h : ∀ chunk ∈ chunks, chunk.Laid) :
    ¬LeftOver (assignExports (script chunks)) := by
  have hheader : "exports.__esModule = true;\n".toList = "exports.__esModule = true;".toList ++ ['\n'] :=
    by decide
  have hmark : Quiet "__esModule = true;".toList := quiet_of_contains (by decide)
  have hquiet : Quiet "exports.__esModule = true;".toList := hmark.append_exports
  rw [assignExports_script h, hheader, List.append_assoc]
  refine (hquiet.settled.append_line (.intercalate fun line hline => ?_)).not_leftOver
  rcases List.mem_append.mp hline with hline | hline
  · obtain ⟨chunk, hchunk, rfl⟩ := List.mem_map.mp hline
    exact (h chunk hchunk).quiet_result.settled
  · obtain ⟨kind, _, hline⟩ := List.mem_flatMap.mp hline
    obtain ⟨chunk, hchunk, hline⟩ := List.mem_flatMap.mp hline
    exact (h chunk hchunk).settled_assigned hline

end Assignments

-- The address that stands in for an asset is one of three.
theorem placeholder_mem (name : String) :
    Asset.placeholder name ∈ [Asset.vectorPlaceholder, Asset.pixelPlaceholder, ""] := by
  unfold Asset.placeholder
  split
  · split
    · exact List.mem_cons_self
    · split <;> simp
  · simp

-- A text in quotation marks is no declaration of a function or a class.
theorem stands_quote {text : List Char} {gap : List Char} (hgap : IsGap gap) (address : List Char) :
    (Export.expression gap).Stands (Text.quote address ++ text) := by
  have hquote : Text.quote address ++ text = '"' :: (address.flatMap Text.escape ++ '"' :: text) := by
    rw [Text.quote]
    simp only [List.cons_append, List.append_assoc, List.nil_append]
  rw [hquote]
  refine .expression hgap (List.cons_ne_nil _ _) (fun c hc => Option.some.inj hc ▸ by decide) ?_
  rintro later - heading name hheading - ⟨rest, hrest⟩
  have hletter : ∀ c ∈ (heading ++ (name ++ rest)).head?, c ≠ '"' :=
    (hheading.opened.append _).head (by decide)
  rw [← List.append_assoc, hrest] at hletter
  exact hletter '"' rfl rfl

set_option maxRecDepth 4000 in
-- The address goes behind `default` without the word `export`.
theorem quiet_address {address : String}
    (h : address ∈ [Asset.vectorPlaceholder, Asset.pixelPlaceholder, ""]) :
    Quiet ((Export.expression [' ']).words ++ (Text.quote address.toList ++ [';'])) := by
  -- Reading the characters off a literal at once spares the kernel its decoding.
  have hchars {literal : String} {chars : List Char} (hliteral : literal = String.ofList chars)
      (hquiet : Text.contains "export".toList ((Export.expression [' ']).words ++
        (Text.quote chars ++ [';'])) = false) :
      Quiet ((Export.expression [' ']).words ++ (Text.quote literal.toList ++ [';'])) := by
    rw [hliteral, String.toList_ofList]
    exact quiet_of_contains hquiet
  simp only [List.mem_cons, List.not_mem_nil, or_false] at h
  rcases h with rfl | rfl | rfl
  · exact hchars rfl (by decide +kernel)
  · exact hchars rfl (by decide +kernel)
  · exact hchars rfl (by decide +kernel)

-- In the stand-in of an asset its export starts a line.
theorem exists_script_standIn (name : String) :
    ∃ chunks, (Asset.standInModule name).toList = script chunks ∧ ∀ chunk ∈ chunks, chunk.Laid := by
  refine ⟨[.exporting [] [' '] (.expression [' '])
    (Text.quote (Asset.placeholder name).toList ++ [';']), .plain []], ?_, ?_⟩
  · have hmodule : Asset.standInModule name =
        "export default " ++ Text.quoted (Asset.placeholder name) ++ ";\n" := rfl
    have hquoted : (Text.quoted (Asset.placeholder name)).toList =
        Text.quote (Asset.placeholder name).toList := String.toList_ofList
    have hstatement : "export default ".toList =
        "export".toList ++ ([' '] ++ ("default".toList ++ [' '])) := by decide
    have hend : ";\n".toList = [';'] ++ ['\n'] := by decide
    rw [hmodule, String.toList_append, String.toList_append, hquoted, hstatement, hend]
    simp only [script, Chunk.source, List.map_cons, List.map_nil, List.intercalate_cons_cons,
      List.intercalate_singleton, List.append_assoc, List.nil_append, List.append_nil]
    rfl
  · rw [List.forall_mem_cons, List.forall_mem_singleton]
    exact ⟨.exporting (List.forall_mem_nil _) isGap_blank (stands_quote isGap_blank _)
      (quiet_address (placeholder_mem name)), .plain .nil⟩

-- A script of the project with its imports replaced.
def IsLinked (files : Sources) (id : String) (source : List Char) : Prop :=
  ∃ text count, readable? files id = some text ∧
    source = (Importing.ofScript (registered? files id) count text).body

theorem Emitted.exists_source {files : Sources} {turns : List Turn}
    {definition : String × List Char} (h : Emitted files turns definition) :
    (∃ content, files.get? definition.1 = some content ∧
      definition.2 = "module.exports = ".toList ++ Text.trim content.toList ++ [';']) ∨
    (∃ name, definition.2 = assignExports (Asset.standInModule name).toList) ∨
    ∃ source, IsLinked files definition.1 source ∧ definition.2 = assignExports source := by
  cases h with
  | @standIn turn mention _ _ _ _ htarget =>
      exact .inr (.inl ⟨mention.name, by rw [(Sources.standIn_of_resolve htarget).2]⟩)
  | @own turn _ _ hown =>
      have hscript (h : (turn.script? files).map (fun part => (turn.path, assignExports part.body)) =
          some definition) :
          ∃ source, IsLinked files definition.1 source ∧ definition.2 = assignExports source := by
        obtain ⟨part, hpart, rfl⟩ := Option.map_eq_some_iff.mp h
        obtain ⟨text, hread, rfl⟩ := Option.map_eq_some_iff.mp hpart
        exact ⟨_, ⟨text, turn.count, hread, rfl⟩, rfl⟩
      unfold Turn.definition? at hown
      split at hown
      · cases hown
      · rename_i content hget
        split at hown
        · obtain ⟨_, _, rfl⟩ := Option.map_eq_some_iff.mp hown
          exact .inl ⟨content, hget, rfl⟩
        · cases hown
        · exact .inr (.inr (hscript hown))

-- In no module of a linked project an export is left, apart from data and from scripts in which an
-- export does not start a line.
theorem link_leaves_none {files : Sources} {entry : String} {output : Output}
    (h : link files entry = .ok output) :
    output.code = scriptText (walkFrom files entry).definitions entry ∧
      ∀ definition ∈ (walkFrom files entry).definitions, ¬LeftOver definition.2 ∨
        (∃ content, files.get? definition.1 = some content ∧
          definition.2 = "module.exports = ".toList ++ Text.trim content.toList ++ [';']) ∨
        ∃ source, IsLinked files definition.1 source ∧ definition.2 = assignExports source ∧
          ∀ chunks, source = script chunks → ∃ chunk ∈ chunks, ¬chunk.Laid := by
  obtain ⟨_, rfl⟩ := link_eq_ok_iff.mp h
  obtain ⟨turns, hcourse, _⟩ := exists_course files entry
  refine ⟨rfl, fun definition hdefinition => ?_⟩
  rcases (hcourse.emitted definition hdefinition).exists_source with
    hdata | ⟨name, hbody⟩ | ⟨source, hlinked, hbody⟩
  · exact .inr (.inl hdata)
  · obtain ⟨chunks, hchunks, hlaid⟩ := exists_script_standIn name
    rw [hbody, hchunks]
    exact .inl (not_leftOver_assignExports hlaid)
  · by_cases hlaid : ∃ chunks, source = script chunks ∧ ∀ chunk ∈ chunks, chunk.Laid
    · obtain ⟨chunks, hchunks, hlaid⟩ := hlaid
      rw [hbody, hchunks]
      exact .inl (not_leftOver_assignExports hlaid)
    · refine .inr (.inr ⟨source, hlinked, hbody, fun chunks hchunks => ?_⟩)
      by_contra hnone
      refine hlaid ⟨chunks, hchunks, fun chunk hchunk => ?_⟩
      by_contra hnot
      exact hnone ⟨chunk, hchunk, hnot⟩

-- Two exports in forms that the linker does not know, and one that it knows.
def patternExports : Sources := .ofList
  [("main.js", "import './a.js';\nexport const \x7b a \x7d = \x7b a: 1 \x7d;"),
    ("a.js", "export const b = 1;")]

theorem link_leaves_none_patternExports :
    ∃ output, link patternExports "main.js" = .ok output ∧
      ∃ body, ("a.js", body) ∈ (walkFrom patternExports "main.js").definitions ∧
        ¬LeftOver body := by
  have hlinked : (walkFrom patternExports "main.js").findings = [] := by decide +kernel
  have hlink := link_eq_ok_iff.mpr ⟨hlinked, rfl⟩
  have hdefined : ("a.js", "exports.__esModule = true;\nconst b = 1;\nexports.b = b;".toList) ∈
      (walkFrom patternExports "main.js").definitions := by decide +kernel
  have hcontent : patternExports.get? "a.js" = some "export const b = 1;" := by decide +kernel
  refine ⟨_, hlink, _, hdefined, ?_⟩
  rcases (link_leaves_none hlink).2 _ hdefined with
    hnone | ⟨content, hget, hdata⟩ | ⟨source, ⟨text, count, hread, rfl⟩, _, hchunks⟩
  · exact hnone
  · obtain rfl := Option.some.inj (hcontent.symm.trans hget)
    have hother : "exports.__esModule = true;\nconst b = 1;\nexports.b = b;".toList ≠
        "module.exports = ".toList ++ Text.trim "export const b = 1;".toList ++ [';'] := by decide
    exact absurd hdata hother
  · have htext : readable? patternExports "a.js" = some "export const b = 1;".toList := by
      decide +kernel
    obtain rfl := Option.some.inj (htext.symm.trans hread)
    have hbody : (Importing.ofScript (registered? patternExports "a.js") count
        "export const b = 1;".toList).body = "export const b = 1;".toList := by
      refine Importing.body_ofScript fun pass hpass => ?_
      simp only [Importing.passes, Importing.laterPasses, List.mem_cons, List.not_mem_nil,
        or_false] at hpass
      rcases hpass with rfl | rfl | rfl | rfl <;> decide +kernel
    have hscript : script [.exporting [] [' '] (.value "const ".toList "b".toList) " = 1;".toList] =
        "export const b = 1;".toList := by decide
    obtain ⟨chunk, hchunk, hnot⟩ := hchunks _ (hbody.trans hscript.symm)
    refine absurd ?_ hnot
    obtain rfl := List.mem_singleton.mp hchunk
    have hheading : ValueHeading "const ".toList := by
      have hsplit : "const ".toList = [] ++ ([] ++ ("const".toList ++ [' '])) := by decide
      rw [hsplit]
      exact .intro .absent .absent (.other (by decide) isGap_blank)
    have hname : IsDeclared "b".toList := by
      have hsplit : "b".toList = ['b'] := by decide
      rw [hsplit]
      exact .intro (by decide) (List.forall_mem_nil _)
    exact .exporting (List.forall_mem_nil _) isGap_blank (.value hheading hname (by decide))
      (quiet_of_contains (by decide))

-- The project is linked, although the pattern is left.
theorem link_leaves_pattern :
    ∃ output, link patternExports "main.js" = .ok output ∧
      ∃ body, ("main.js", body) ∈ (walkFrom patternExports "main.js").definitions ∧
        LeftOver body := by
  have hlinked : (walkFrom patternExports "main.js").findings = [] := by decide +kernel
  have hdefined : ("main.js", "exports.__esModule = true;\n".toList ++
      ("__forge_require(\"a.js\");\n".toList ++ ("export".toList ++ ([' '] ++ ("const".toList ++
        " \x7b a \x7d = \x7b a: 1 \x7d;".toList))))) ∈
      (walkFrom patternExports "main.js").definitions := by decide +kernel
  refine ⟨_, link_eq_ok_iff.mpr ⟨hlinked, rfl⟩, _, hdefined, ?_⟩
  refine ⟨_, [' '], "const", _, (List.append_assoc ..).symm, ?_, by decide⟩
  exact ⟨List.cons_ne_nil _ _, by decide⟩

end LivePreview.Linking
