import LivePreview.Proofs.Script.Clauses
import LivePreview.Proofs.Script.Directives
import LivePreview.Proofs.Script.Prologue

namespace LivePreview

namespace Script

-- A script has no issue if it is read alike a script that has none.
theorem structureIssue?_eq_none {source fixed old new later : List Char}
    (h : ResultAlike old new later (readCode none (.start source)) (readCode none (.start fixed)))
    (hsource : structureIssue? source = none) : structureIssue? fixed = none := by
  unfold readCode at h
  unfold structureIssue? at hsource ⊢
  generalize code none (Scan.start source) = first at h hsource
  generalize code none (Scan.start fixed) = second at h ⊢
  cases second with
  | ok => rfl
  | error halt =>
      cases first with
      | ok => cases h
      | error halt' =>
          cases h with
          | error h =>
              cases h with
              | broken => cases hsource
              | @finished first second h =>
                  cases second with
                  | nil => rfl
                  | cons opening second =>
                      cases first with
                      | nil => cases h
                      | cons opening' first => cases hsource

-- The same text is read alike wherever it stands.
theorem exists_readAlike {s t : Scan} (hrest : s.rest = t.rest)
    (hbrackets : s.openings.map (·.bracket) = t.openings.map (·.bracket)) :
    ∃ part later, ReadAlike part part later s t := by
  have himport : IsFlat "import ".toList := by decide
  have hpasses : Passes ("import ".toList ++ "from".toList) " ''".toList :=
    passes_import (.flat himport) rfl (not_inName_of_getLast? rfl (by decide))
      ⟨[' '], '\'', ['\''], rfl, ⟨by simp, by decide⟩, .inr rfl⟩
  exact ⟨_, _, readAlike hpasses hpasses ⟨.inl (hrest ▸ .same _), hbrackets⟩⟩

end Script

namespace ImportPatch

open Script

-- What stands where the import of a name is added is written in the common way: the clause that takes
-- the name is plain, and its line is not within a string; the directives in front of a new statement
-- are strings that end.
structure IsOrderly (source : List Char) (known : KnownName) : Prop where
  clauses : ∀ found ∈ (importFrom known.module).findAll source, ∀ clause merged,
    found.capture? 1 = some clause → merge clause.text known = .merged merged →
      IsPlainClause clause.text
  lines : ∀ found ∈ (importFrom known.module).findAll source, ∀ front,
    source = front ++ found.start.rest → ¬['\\', '\n'] <:+ front
  top : mergeFirst? source known ((importFrom known.module).findAll source) = none →
    IsPrologue (source.drop (directives source).length) (directives source)

section

variable {source fixed : List Char} {known : KnownName}

theorem passes_statement {gap back text later : List Char} (hgap : IsGap gap) (hback : IsGap back)
    (htext : IsPlain text) (hlater : OpensQuote later) :
    Passes ("import".toList ++ (gap ++ (text ++ back)) ++ "from".toList) later := by
  have himport : IsFlat "import".toList := by decide
  have hlead : ∀ c ∈ ("import".toList ++ gap).getLast?, inName c = false := by
    intro c hc
    rw [List.getLast?_append_of_ne_nil _ hgap.nonempty] at hc
    exact not_inName_of_isBlank (hgap.blank c (List.mem_of_getLast? hc))
  have hplain : IsPlain ("import".toList ++ (gap ++ (text ++ back))) := by
    rw [← List.append_assoc]
    exact (htext.append_flat (isFlat_of_blank hback.blank)).flat_append
      (himport.append (isFlat_of_blank hgap.blank)) hlead
  refine passes_import hplain rfl (fun c hc => ?_) hlater
  rw [← List.append_assoc, ← List.append_assoc,
    List.getLast?_append_of_ne_nil _ hback.nonempty] at hc
  exact not_inName_of_isBlank (hback.blank c (List.mem_of_getLast? hc))

-- The script is read as before if an import takes the name.
theorem structureIssue?_of_edited {found : Pattern.Match} (hknown : known ∈ KnownName.table)
    (horderly : IsOrderly source known)
    (hfound : found ∈ (importFrom known.module).findAll source)
    (hedited : Edited source known (some fixed) found) (hsource : structureIssue? source = none) :
    structureIssue? fixed = none := by
  obtain ⟨clause, hclause, ⟨heq, _⟩ | ⟨merged, hmerged, heq⟩⟩ := hedited
  · cases heq
  obtain ⟨front, gap, back, behind, mark, later, hfront, hline, hstart, hclauseRest, hstop, hgap,
    hback, hbehind, hmark⟩ := exists_statement_of_importFrom hfound hclause
  have hplain := horderly.clauses found hfound clause merged hclause hmerged
  have hquote : OpensQuote (behind ++ mark :: later) := ⟨behind, mark, later, rfl, hbehind, hmark⟩
  have hold := passes_statement hgap hback hplain.isPlain hquote
  have hnew := passes_statement hgap hback (hplain.isPlain_merge (isFlat_of_known hknown) hmerged)
    hquote
  have holdText : source =
      front ++ ("import".toList ++ (gap ++ (clause.text ++ back)) ++ "from".toList ++
        (behind ++ mark :: later)) := by
    rw [hfront, hstart, hclauseRest, hstop]
    simp only [List.append_assoc]
  have hbefore : source.take (source.length - clause.start.rest.length) =
      front ++ "import".toList ++ gap := by
    have hsplit : source = (front ++ "import".toList ++ gap) ++ clause.start.rest := by
      rw [hfront, hstart]
      simp only [List.append_assoc]
    have hlength := congrArg List.length hsplit
    rw [List.length_append] at hlength
    have hcount : source.length - clause.start.rest.length =
        (front ++ "import".toList ++ gap).length := by omega
    rw [hcount]
    exact (congrArg (List.take _) hsplit).trans List.take_left
  have hnewText : fixed =
      front ++ ("import".toList ++ (gap ++ (merged ++ back)) ++ "from".toList ++
        (behind ++ mark :: later)) := by
    rw [Option.some.inj heq, hbefore, hstop]
    simp only [List.append_assoc]
  have hmeets : Meets ("import".toList ++ (gap ++ (clause.text ++ back)) ++ "from".toList)
      ("import".toList ++ (gap ++ (merged ++ back)) ++ "from".toList) (behind ++ mark :: later)
      source fixed := by
    by_cases hnil : front = []
    · exact .inr ⟨by simpa [hnil] using holdText, by simpa [hnil] using hnewText⟩
    · have hends : EndsLine front := by
        refine ⟨?_, horderly.lines found hfound front hfront⟩
        have hlast := List.getLast?_eq_some_getLast hnil
        rw [hlast, hline _ hlast]
      rw [holdText, hnewText]
      exact .inl (.before front hends)
  have hread := readAlike hold hnew (s := .start source) (t := .start fixed) ⟨hmeets, rfl⟩
  exact structureIssue?_eq_none (hread.code none (.of_last rfl) nofun) hsource

-- The script is read as before behind a new statement at its top.
theorem structureIssue?_of_inserted {top later : List Char} (hknown : known ∈ KnownName.table)
    (htop : IsPrologue later top) (hsource : structureIssue? (top ++ later) = none) :
    structureIssue? (top ++ ((statement known).toList ++ later)) = none := by
  have hfresh : ∀ source, (Scan.start source).Fresh := fun _ => .same rfl rfl
  obtain ⟨front, hparts, _, hhead, _⟩ := exists_parts_of_statement (isFlat_of_known hknown)
  have hword : (statement known).toList.head? = some 'i' := by
    rw [hparts, List.head?_append, hhead]
    rfl
  obtain ⟨s, hs, hrest, hopenings, hreads⟩ :=
    exists_read_prologue none htop (hfresh (top ++ later)) rfl
  obtain ⟨t, ht, hrest', hopenings', _⟩ := exists_read_prologue none (htop.of_word hword)
    (hfresh (top ++ ((statement known).toList ++ later))) rfl
  obtain ⟨u, hu, hrest'', hopenings'', hreads'⟩ :=
    exists_read_statement none hknown hrest' nofun
  obtain ⟨_, _, hread⟩ := exists_readAlike (hrest.trans hrest''.symm)
    (by rw [hopenings, hopenings'', hopenings']; rfl)
  have hcode := hread.code none (hreads.tokensAlike hreads' (hrest.trans hrest''.symm)) nofun
  rw [← hs, ← hu, ← ht] at hcode
  exact structureIssue?_eq_none hcode hsource

end

-- A script whose structure is sound is sound after the import of a known name was added.
theorem structureIssue?_of_addImport? {source fixed : List Char} {known : KnownName}
    (hknown : known ∈ KnownName.table) (horderly : IsOrderly source known)
    (hsource : structureIssue? source = none) (h : addImport? source known = some fixed) :
    structureIssue? fixed = none := by
  unfold addImport? at h
  split at h
  · rename_i result hmerge
    subst h
    obtain ⟨found, hfound, hedited⟩ := exists_edited hmerge
    exact structureIssue?_of_edited hknown horderly hfound hedited hsource
  · rename_i hmerge
    obtain rfl := Option.some.inj h
    have hfixed := structureIssue?_of_inserted hknown (horderly.top hmerge)
      (by rwa [directives_append_drop])
    rwa [← List.append_assoc] at hfixed

-- The name joins the braces of an import that stands behind a directive and has a default.
theorem structureIssue?_of_addImport?_braces :
    ⟨"Suspense", "react", false⟩ ∈ KnownName.table ∧
      IsOrderly "'use client';\nimport React, \x7b memo \x7d from 'react';\nr(<Suspense/>)".toList
        ⟨"Suspense", "react", false⟩ ∧
      structureIssue? "'use client';\nimport React, \x7b memo \x7d from 'react';\nr(<Suspense/>)".toList
        = none ∧
      addImport? "'use client';\nimport React, \x7b memo \x7d from 'react';\nr(<Suspense/>)".toList
        ⟨"Suspense", "react", false⟩ = some
          "'use client';\nimport React, \x7b memo, Suspense \x7d from 'react';\nr(<Suspense/>)".toList ∧
      structureIssue?
        "'use client';\nimport React, \x7b memo, Suspense \x7d from 'react';\nr(<Suspense/>)".toList
        = none := by
  have hfound : ∀ found ∈ (importFrom "react").findAll
      "'use client';\nimport React, \x7b memo \x7d from 'react';\nr(<Suspense/>)".toList,
      found.start.rest = "import React, \x7b memo \x7d from 'react';\nr(<Suspense/>)".toList ∧
        (found.capture? 1).map Capture.text =
          some ("React, ".toList ++ (braced " memo ".toList ++ [])) := by
    decide +kernel
  have horderly : IsOrderly
      "'use client';\nimport React, \x7b memo \x7d from 'react';\nr(<Suspense/>)".toList
      ⟨"Suspense", "react", false⟩ := by
    constructor
    · intro found hmem clause merged hclause _
      have htext := (hfound found hmem).2
      rw [hclause] at htext
      rw [Option.some.inj htext]
      have hlead : IsFlat "React, ".toList := by decide
      have hinner : IsFlat " memo ".toList := by decide
      exact .braces hlead hinner nofun (not_inName_of_getLast? rfl (by decide))
    · intro found hmem front hfront
      have hsplit : "'use client';\n".toList ++ found.start.rest = front ++ found.start.rest := by
        rw [← hfront, (hfound found hmem).1]
        decide
      rw [← List.append_cancel_right hsplit]
      decide
    · intro hnone
      have hsome : mergeFirst?
          "'use client';\nimport React, \x7b memo \x7d from 'react';\nr(<Suspense/>)".toList
          ⟨"Suspense", "react", false⟩ ((importFrom "react").findAll
            "'use client';\nimport React, \x7b memo \x7d from 'react';\nr(<Suspense/>)".toList) ≠ none := by
        decide +kernel
      exact absurd hnone hsome
  have hknown : ⟨"Suspense", "react", false⟩ ∈ KnownName.table := by decide
  have hsource : structureIssue?
      "'use client';\nimport React, \x7b memo \x7d from 'react';\nr(<Suspense/>)".toList = none := by
    decide +kernel
  have hadds : addImport?
      "'use client';\nimport React, \x7b memo \x7d from 'react';\nr(<Suspense/>)".toList
      ⟨"Suspense", "react", false⟩ = some
        "'use client';\nimport React, \x7b memo, Suspense \x7d from 'react';\nr(<Suspense/>)".toList := by
    decide +kernel
  exact ⟨hknown, horderly, hsource, hadds, structureIssue?_of_addImport? hknown horderly hsource hadds⟩

-- A clause may hold a comment to the end of its line. The comment loses the end of the line, so that
-- it goes on over the closing brace.
theorem structureIssue?_of_addImport?_comment :
    ⟨"Suspense", "react", false⟩ ∈ KnownName.table ∧
      structureIssue? "import \x7b\n  useState, // state\n\x7d from 'react';\nr(<Suspense/>)".toList = none ∧
      ∃ fixed, addImport? "import \x7b\n  useState, // state\n\x7d from 'react';\nr(<Suspense/>)".toList
          ⟨"Suspense", "react", false⟩ = some fixed ∧
        structureIssue? fixed ≠ none := by
  refine ⟨by decide +kernel, by decide +kernel,
    "import \x7b useState, // state, Suspense \x7d from 'react';\nr(<Suspense/>)".toList, ?_, ?_⟩
  · decide +kernel
  · decide +kernel

end ImportPatch

end LivePreview
