import LivePreview.Proofs.Script.Binding

namespace LivePreview

namespace Text

theorem flatten_linesWithEnds (current text : List Char) :
    (linesWithEnds current text).flatten = current.reverse ++ text := by
  fun_induction linesWithEnds current text with
  | case1 => simp
  | case2 current hne => simp
  | case3 current text ih => simp [ih]
  | case4 current c text hne ih => simp [ih]

theorem linesWithEnds_append {current line : List Char} (h : '\n' ∉ line) (rest : List Char) :
    linesWithEnds current (line ++ '\n' :: rest) =
      (current.reverse ++ line ++ ['\n']) :: linesWithEnds [] rest := by
  induction line generalizing current with
  | nil => simp [linesWithEnds]
  | cons c line ih =>
      obtain ⟨hc, hline⟩ := not_or.mp (List.mem_cons.not.mp h)
      rw [List.cons_append, linesWithEnds.eq_3 _ _ _ (Ne.symm hc), ih hline]
      simp

-- A line with its end is not empty, and its end is its last character.
theorem line_of_mem_linesWithEnds {current text line : List Char} (hcurrent : '\n' ∉ current)
    (h : line ∈ linesWithEnds current text) : line ≠ [] ∧ '\n' ∉ line.dropLast := by
  fun_induction linesWithEnds current text with
  | case1 => cases h
  | case2 current hne =>
      obtain rfl := List.mem_singleton.mp h
      refine ⟨by simpa using hne, fun hmem => hcurrent ?_⟩
      exact List.mem_reverse.mp (List.dropLast_subset _ hmem)
  | case3 current text ih =>
      rcases List.mem_cons.mp h with rfl | h
      · rw [List.reverse_cons, List.dropLast_concat, List.mem_reverse]
        exact ⟨by simp, hcurrent⟩
      · exact ih List.not_mem_nil h
  | case4 current c text hne ih =>
      refine ih ?_ h
      rw [List.mem_cons, not_or]
      exact ⟨fun hc => hne hc.symm, hcurrent⟩

-- What stands behind a line feed is the start of a line.
theorem exists_line_of_flatten {lines : List (List Char)} {passed more : List Char}
    (hlines : ∀ line ∈ lines, line ≠ [] ∧ '\n' ∉ line.dropLast)
    (h : lines.flatten = passed ++ more) (hne : more ≠ [])
    (hstart : ∀ c ∈ passed.getLast?, c = '\n') : ∃ line ∈ lines, line.head? = more.head? := by
  induction lines generalizing passed with
  | nil => exact absurd (List.append_eq_nil_iff.mp h.symm).2 hne
  | cons line lines ih =>
      obtain ⟨⟨hline, hbreak⟩, hothers⟩ := List.forall_mem_cons.mp hlines
      rw [List.flatten_cons] at h
      rcases List.append_eq_append_iff.mp h with ⟨behind, rfl, hmore⟩ | ⟨rest, rfl, hmore⟩
      · obtain ⟨other, hother, hhead⟩ := ih hothers hmore fun c hc => hstart c (by
          rw [List.getLast?_append, hc]
          rfl)
        exact ⟨other, List.mem_cons_of_mem _ hother, hhead⟩
      · cases passed with
        | nil =>
            refine ⟨_, List.mem_cons_self, ?_⟩
            rw [hmore]
            exact (List.head?_append_of_ne_nil _ hline).symm
        | cons d passed =>
            have hend : '\n' ∈ d :: passed := by
              have hlast := hstart _ (List.getLast?_eq_some_getLast (List.cons_ne_nil d passed))
              exact hlast ▸ List.getLast_mem _
            by_cases hrest : rest = []
            · rw [hrest, List.nil_append] at hmore
              have hflatten : lines.flatten = [] ++ more := hmore.symm
              obtain ⟨other, hother, hhead⟩ := ih hothers hflatten nofun
              exact ⟨other, List.mem_cons_of_mem _ hother, hhead⟩
            · rw [List.dropLast_append_of_ne_nil hrest] at hbreak
              exact absurd (List.mem_append_left _ hend) hbreak

end Text

namespace ImportPatch

theorem directives_append_drop (source : List Char) :
    directives source ++ source.drop (directives source).length = source := by
  rw [← List.prefix_iff_eq_append]
  unfold directives
  dsimp only
  split
  · obtain ⟨more, hmore⟩ := List.takeWhile_prefix isDirective (l := Text.linesWithEnds [] source)
    have hlines := Text.flatten_linesWithEnds [] source
    refine ⟨more.flatten, ?_⟩
    rw [← List.flatten_append, hmore, hlines]
    rfl
  · exact List.nil_prefix

theorem getLast?_directives (source : List Char) : ∀ c ∈ (directives source).getLast?, c = '\n' := by
  unfold directives
  dsimp only
  split
  · rename_i hends
    obtain ⟨front, hfront⟩ := Option.isSome_iff_exists.mp hends
    rw [Text.eq_append_of_before? hfront, List.getLast?_concat]
    exact fun c hc => (Option.some.inj hc).symm
  · exact nofun

-- A directive starts with a quotation mark, behind blanks.
theorem head_of_isDirective {line : List Char} (h : isDirective line = true) :
    ∀ c ∈ line.head?, Text.isBlank c = true ∨ Script.Form.isQuote c = true := by
  have hmark : ∃ mark rest, Text.trim line = mark :: rest ∧ Script.Form.isQuote mark = true := by
    rw [isDirective, Bool.and_eq_true, Bool.or_eq_true] at h
    rcases h.1 with h | h
    all_goals
      obtain ⟨rest, hrest⟩ := Option.isSome_iff_exists.mp h
      exact ⟨_, _, Text.after?_eq_some_iff.mp hrest, by decide⟩
  obtain ⟨mark, rest, htrim, hmark⟩ := hmark
  obtain ⟨gap, gap', hline, hgap, _⟩ := Text.exists_trim line
  intro c hc
  rw [hline, htrim] at hc
  cases gap with
  | nil => exact .inr (Option.some.inj hc ▸ hmark)
  | cons b gap => exact .inl (hgap c (List.mem_of_mem_head? (Option.some.inj hc ▸ rfl)))

-- A line of the directives at the top starts like a directive.
theorem head_of_directives {source passed more : List Char} (h : directives source = passed ++ more)
    (hstart : ∀ c ∈ passed.getLast?, c = '\n') :
    ∀ c ∈ more.head?, Text.isBlank c = true ∨ Script.Form.isQuote c = true := by
  intro c hc
  have hne : more ≠ [] := by
    rintro rfl
    cases hc
  unfold directives at h
  dsimp only at h
  split at h
  · obtain ⟨line, hline, hhead⟩ := Text.exists_line_of_flatten (fun line hline =>
      Text.line_of_mem_linesWithEnds List.not_mem_nil (List.takeWhile_sublist _ |>.subset hline))
      h hne hstart
    exact head_of_isDirective (List.mem_takeWhile_imp hline) c (hhead ▸ hc)
  · exact absurd (List.append_eq_nil_iff.mp h.symm).2 hne

-- Lines, each with its end.
def withEnds (lines : List (List Char)) : List Char := lines.flatMap (· ++ ['\n'])

theorem isDirective_line (line : List Char) : isDirective (line ++ ['\n']) = isDirective line := by
  have htrim : Text.trim (line ++ ['\n']) = Text.trim line :=
    Text.trim_around (List.forall_mem_nil _) (by decide)
  unfold isDirective
  rw [htrim]

-- The directives at the top are the first lines that are some, if the last one of these has an end.
theorem directives_withEnds {lines : List (List Char)} {rest : List Char}
    (hlines : ∀ line ∈ lines, '\n' ∉ line ∧ isDirective line = true)
    (hrest : ∀ line ∈ (Text.linesWithEnds [] rest).head?, isDirective line = false) :
    directives (withEnds lines ++ rest) = withEnds lines := by
  have htake : ((Text.linesWithEnds [] (withEnds lines ++ rest)).takeWhile isDirective).flatten =
      withEnds lines := by
    induction lines with
    | nil =>
        change ((Text.linesWithEnds [] rest).takeWhile isDirective).flatten = []
        cases hfirst : Text.linesWithEnds [] rest with
        | nil => rfl
        | cons line more =>
            have hline := hrest line (by rw [hfirst]; rfl)
            rw [List.takeWhile_cons_of_neg (by rw [hline]; exact Bool.false_ne_true)]
            rfl
    | cons line lines ih =>
        obtain ⟨⟨hbreak, hline⟩, hlines⟩ := List.forall_mem_cons.mp hlines
        have hsplit : withEnds (line :: lines) ++ rest = line ++ '\n' :: (withEnds lines ++ rest) := by
          simp [withEnds]
        rw [hsplit, Text.linesWithEnds_append hbreak, List.reverse_nil, List.nil_append,
          List.takeWhile_cons_of_pos (by rw [isDirective_line, hline]), List.flatten_cons, ih hlines]
        rfl
  unfold directives
  dsimp only
  rw [htake]
  split
  · rfl
  · rename_i hends
    rcases List.eq_nil_or_concat lines with rfl | ⟨front, line, rfl⟩
    · rfl
    · have hlast : withEnds (front.concat line) = withEnds front ++ line ++ ['\n'] := by
        simp [withEnds]
      rw [hlast, Text.endsWith_append] at hends
      exact absurd rfl hends

-- A statement that is added stands directly behind the directives at the top.
theorem addImport?_behind_directives {lines : List (List Char)} {rest : List Char}
    {known : KnownName} (hlines : ∀ line ∈ lines, '\n' ∉ line ∧ isDirective line = true)
    (hrest : ∀ line ∈ (Text.linesWithEnds [] rest).head?, isDirective line = false)
    (hmerge : mergeFirst? (withEnds lines ++ rest) known
      ((importFrom known.module).findAll (withEnds lines ++ rest)) = none) :
    addImport? (withEnds lines ++ rest) known =
      some (withEnds lines ++ ((statement known).toList ++ rest)) := by
  unfold addImport?
  rw [hmerge]
  dsimp only
  rw [directives_withEnds hlines hrest, List.drop_left, List.append_assoc]

-- Two directives, the second one of which is followed by code.
theorem addImport?_behind_directives_two :
    (∀ line ∈ ["'use client';".toList, "\"use strict\"".toList],
        '\n' ∉ line ∧ isDirective line = true) ∧
      (∀ line ∈ (Text.linesWithEnds [] "export const A = 1;\n".toList).head?,
        isDirective line = false) ∧
      mergeFirst? (withEnds ["'use client';".toList, "\"use strict\"".toList] ++
          "export const A = 1;\n".toList) ⟨"useState", "react", false⟩
        ((importFrom "react").findAll (withEnds ["'use client';".toList, "\"use strict\"".toList] ++
          "export const A = 1;\n".toList)) = none ∧
      addImport? (withEnds ["'use client';".toList, "\"use strict\"".toList] ++
          "export const A = 1;\n".toList) ⟨"useState", "react", false⟩ =
        some (withEnds ["'use client';".toList, "\"use strict\"".toList] ++
          ((statement ⟨"useState", "react", false⟩).toList ++ "export const A = 1;\n".toList)) := by
  have hlines : ∀ line ∈ ["'use client';".toList, "\"use strict\"".toList],
      '\n' ∉ line ∧ isDirective line = true := by
    decide +kernel
  have hrest : ∀ line ∈ (Text.linesWithEnds [] "export const A = 1;\n".toList).head?,
      isDirective line = false := by
    decide +kernel
  have hmerge : mergeFirst? (withEnds ["'use client';".toList, "\"use strict\"".toList] ++
      "export const A = 1;\n".toList) ⟨"useState", "react", false⟩
        ((importFrom "react").findAll (withEnds ["'use client';".toList, "\"use strict\"".toList] ++
          "export const A = 1;\n".toList)) = none := by
    decide +kernel
  exact ⟨hlines, hrest, hmerge, addImport?_behind_directives hlines hrest hmerge⟩

-- Behind a blank line a directive is not at the top, and the statement is added in front of it.
theorem addImport?_before_directive :
    isDirective "'use client';\n".toList = true ∧
      addImport? "\n'use client';\nexport const A = 1;\n".toList ⟨"useState", "react", false⟩ =
        some "import \x7b useState \x7d from 'react';\n\n'use client';\nexport const A = 1;\n".toList := by
  decide +kernel

end ImportPatch

end LivePreview
