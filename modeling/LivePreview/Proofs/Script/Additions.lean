import LivePreview.Proofs.Script.Directives
import LivePreview.Proofs.Script.Merged

namespace LivePreview.ImportPatch

open Pattern
open Linking (ImportClause)
open Spot (between)

section Declining

variable {known : KnownName} {found found' : Match}

-- An import is passed over whatever blanks stand around its clause.
theorem Declines.of_alike (halike : Alike found found') (h : Declines known found) :
    Declines known found' := by
  obtain ⟨clause, clause', hclause, hclause', htrim, hlast, hlast'⟩ := halike
  intro other hother
  obtain rfl := Option.some.inj (hclause'.symm.trans hother)
  rw [← bindsTypes_trim hlast', ← merge_trim, ← htrim, bindsTypes_trim hlast, merge_trim]
  exact h clause hclause

theorem declines_of_forall₂ {passed passed' : List Match} (h : List.Forall₂ Alike passed passed')
    (hpassed : ∀ found ∈ passed, Declines known found) : ∀ found ∈ passed', Declines known found := by
  induction h with
  | nil => exact List.forall_mem_nil _
  | cons halike _ ih =>
      obtain ⟨hfound, hpassed⟩ := List.forall_mem_cons.mp hpassed
      exact List.forall_mem_cons.mpr ⟨hfound.of_alike halike, ih hpassed⟩

-- No import is added if one has the name and those in front of it are passed over.
theorem addImport?_eq_none {front rest clause later : List Char} {passed : List Match}
    (hpassed : (importFrom known.module).Passed rest [] front passed)
    (hdeclines : ∀ found ∈ passed, Declines known found) (hline : ∀ c ∈ front.getLast?, c = '\n')
    (himports : Imports known.module clause rest later)
    (hvalues : bindsTypes (Text.trim clause) = false) (hbound : merge clause known = .alreadyBound) :
    addImport? (front ++ rest) known = none := by
  have hnullable := nullable_importFrom known.module
  obtain ⟨found, hfound⟩ := Option.isSome_iff_exists.mp (isSome_matchAt_importFrom hline himports)
  obtain ⟨more, hmore⟩ := exists_scans_of_matchAt hnullable hfound
  have hall := (hpassed.scans hmore).findAll_eq hnullable
  obtain ⟨_, clause', himport⟩ := exists_import_of_matchAt hfound
  obtain ⟨htrim, _⟩ := himports.unique himport.imports
  have hvalues' : bindsTypes clause'.text = false := by
    rw [← bindsTypes_trim himport.last, ← htrim, hvalues]
  have hbound' : merge clause'.text known = .alreadyBound := by
    rw [← merge_trim, ← htrim, merge_trim, hbound]
  have hmerge := mergeFirst?_cons_of_alreadyBound himport.capture hvalues' hbound' (front ++ rest) more
  rw [addImport?, hall, mergeFirst?_append_of_declines hdeclines, hmerge]

-- Where an import that is found binds the name, no statement is added: either nothing is, or an import
-- in front of that one takes the name.
theorem addImport?_of_bound {source : List Char} {passed later : List Match} {clause : Capture}
    {spelled : Linking.Clause}
    (hall : (importFrom known.module).findAll source = passed ++ found :: later)
    (hclause : found.capture? 1 = some clause) (hvalues : bindsTypes clause.text = false)
    (hspelled : spelled.Spelled clause.text) (hwhole : spelled.whole? = none)
    (hbinds : Binds known spelled) :
    addImport? source known = none ∨
      ∃ other ∈ passed, Edited source known (addImport? source known) other := by
  have hbound := mergeFirst?_cons_of_alreadyBound hclause hvalues
    (merge_of_binds hspelled hwhole hbinds) source later
  unfold addImport?
  rw [hall, mergeFirst?_append, hbound]
  cases hpassed : mergeFirst? source known passed with
  | none => exact .inl rfl
  | some result => exact .inr (exists_edited hpassed)

-- An import of the module as a whole is passed over, and the one behind it has the name as an alias.
theorem addImport?_of_bound_alias : ∃ passed found later clause spelled,
    (importFrom "react").findAll
        "import * as R from 'react';\nimport \x7b x as memo \x7d from 'react';\n".toList =
      passed ++ found :: later ∧
    found.capture? 1 = some clause ∧ bindsTypes clause.text = false ∧
    spelled.Spelled clause.text ∧ spelled.whole? = none ∧ Binds ⟨"memo", "react", false⟩ spelled ∧
    (addImport? "import * as R from 'react';\nimport \x7b x as memo \x7d from 'react';\n".toList
        ⟨"memo", "react", false⟩ = none ∨
      ∃ other ∈ passed, Edited
        "import * as R from 'react';\nimport \x7b x as memo \x7d from 'react';\n".toList
        ⟨"memo", "react", false⟩
        (addImport? "import * as R from 'react';\nimport \x7b x as memo \x7d from 'react';\n".toList
          ⟨"memo", "react", false⟩) other) := by
  have hspace : ∀ c ∈ [' '], Text.isBlank c = true := by decide
  have hitem : (Linking.Item.renamed ['x'] [' '] [' '] "memo".toList).WellFormed := by
    refine ⟨?_, ?_⟩
    · have hx : Linking.IsName ['x'] := ⟨List.cons_ne_nil _ _, by decide⟩
      have hmemo : Linking.IsName "memo".toList := ⟨by decide, by decide⟩
      exact List.forall_mem_cons.mpr ⟨hx, List.forall_mem_singleton.mpr hmemo⟩
    · have hgap : IsGap [' '] := ⟨List.cons_ne_nil _ _, hspace⟩
      exact List.forall_mem_cons.mpr ⟨hgap, List.forall_mem_singleton.mpr hgap⟩
  have hspelled : (Linking.Clause.mk none (some (.list [.renamed ['x'] [' '] [' '] "memo".toList]))).Spelled
      "\x7b x as memo \x7d".toList :=
    ⟨[], _, [], by decide, .forms (.list (.single hitem hspace hspace)), nofun, nofun⟩
  have hclause : (((importFrom "react").findAll
      "import * as R from 'react';\nimport \x7b x as memo \x7d from 'react';\n".toList)[1]?.bind
        (·.capture? 1)).map Capture.text = some "\x7b x as memo \x7d".toList := by
    decide +kernel
  obtain ⟨first, found, hall⟩ : ∃ first found, (importFrom "react").findAll
      "import * as R from 'react';\nimport \x7b x as memo \x7d from 'react';\n".toList =
        [first] ++ [found] := List.length_eq_two.mp (by decide +kernel)
  rw [hall] at hclause
  obtain ⟨clause, hcapture, htext⟩ := Option.map_eq_some_iff.mp hclause
  have hvalues : bindsTypes clause.text = false := by
    rw [htext]
    decide
  have hbinds : Binds ⟨"memo", "react", false⟩
      ⟨none, some (.list [.renamed ['x'] [' '] [' '] "memo".toList])⟩ :=
    ⟨_, List.mem_singleton_self _, .renamed rfl⟩
  rw [← htext] at hspelled
  exact ⟨[first], found, [], clause, _, hall, hcapture, hvalues, hspelled, rfl, hbinds,
    addImport?_of_bound hall hcapture hvalues hspelled rfl hbinds⟩

-- The first import takes the name though the second one has it.
theorem addImport?_duplicates :
    bindsTypes "\x7b useState \x7d".toList = false ∧
      merge "\x7b useState \x7d".toList ⟨"useState", "react", false⟩ = .alreadyBound ∧
      addImport? "import \x7b a \x7d from 'react';\nimport \x7b useState \x7d from 'react';\n".toList
          ⟨"useState", "react", false⟩ = some
        "import \x7b a, useState \x7d from 'react';\nimport \x7b useState \x7d from 'react';\n".toList := by
  decide +kernel

end Declining

-- A script to which the import of a known name is added: the statement that imports it stands at the
-- start of a line, or an import of values from the module has another clause, which binds the name
-- besides what the clause before it bound.
inductive Extended (known : KnownName) (source : List Char) : List Char → Prop
  | inserted {front back : List Char} (hsource : source = front ++ back)
      (hline : ∀ c ∈ front.getLast?, c = '\n') :
      Extended known source (front ++ ((statement known).toList ++ back))
  | replaced {front opening clause merged closing back : List Char}
      (hsource : source = front ++ (opening ++ (clause ++ (closing ++ back))))
      (hline : ∀ c ∈ front.getLast?, c = '\n') (hframe : Frames known.module opening closing)
      (hclause : ∀ c ∈ clause, endsClause c = false) (hvalues : bindsTypes clause = false)
      (hbinds : ∀ spelled : Linking.Clause, spelled.Spelled clause →
        ImportClause.parse merged = added known (ImportClause.parse clause)) :
      Extended known source (front ++ (opening ++ (merged ++ (closing ++ back))))

section Adding

variable {source fixed : List Char} {known : KnownName}

theorem not_mem_module (hknown : known ∈ KnownName.table) : '\n' ∉ known.module.toList :=
  fun hmem => (KnownName.plain_of_mem hknown).ne_of_mem_module hmem (by decide) rfl

theorem plain_of_merged {clause merged : List Char} (hknown : known ∈ KnownName.table)
    (hclause : ∀ c ∈ clause, endsClause c = false) (h : merge clause known = .merged merged) :
    ∀ c ∈ merged, endsClause c = false := by
  have hmarks : ∀ c ∈ [' ', ',', '\x7b', '\x7d'], endsClause c = false := by decide
  intro c hc
  rcases mem_of_merged h hc with hc | hc | hc
  · exact hclause c (Text.trim_subset clause hc)
  · have hname := (KnownName.plain_of_mem hknown).name c hc
    simp [endsClause, Script.Form.isQuote, Text.ne_of_isAlphanum hname]
  · exact hmarks c hc

-- The clause of the statement for a name.
def soleClause (known : KnownName) : List Char :=
  if known.isDefault then known.name.toList
  else "\x7b ".toList ++ known.name.toList ++ " \x7d".toList

-- The clause is what comes of adding the name to a clause that binds nothing.
theorem merge_nil (hname : known.name.toList ≠ []) :
    merge [] known = .merged (soleClause known) := by
  have hstar : '*' ∉ Text.trim [] := by decide
  have hparts : ClauseParts.ofClause (Text.trim []) = ⟨[], []⟩ := by decide
  unfold merge soleClause
  dsimp only
  rw [if_neg hstar, hparts]
  split
  · rw [if_neg hname.symm, if_pos rfl]
    unfold ClauseParts.render
    rw [if_neg hname, if_pos rfl]
  · rw [if_neg (by simp)]
    unfold ClauseParts.render
    rw [if_pos rfl, List.nil_append, List.intercalate_singleton]

theorem imports_statement (hknown : known ∈ KnownName.table) (later : List Char) :
    Imports known.module (soleClause known) ((statement known).toList ++ later)
      (";\n".toList ++ later) := by
  have htext : ∀ text : String, toString text = text := fun _ => rfl
  have hspace : IsGap [' '] := ⟨List.cons_ne_nil _ _, by decide⟩
  have hframe : Frames known.module ("import".toList ++ [' ']) ([' '] ++ ("from".toList ++
      ([' '] ++ '\'' :: (known.module.toList ++ ['\''])))) :=
    ⟨hspace, hspace, hspace, by decide, by decide⟩
  have hstatement : (statement known).toList ++ later = "import".toList ++ [' '] ++
      (soleClause known ++ ([' '] ++ ("from".toList ++ ([' '] ++ '\'' ::
        (known.module.toList ++ ['\'']))) ++ (";\n".toList ++ later))) := by
    unfold statement soleClause
    split <;> simp only [String.toList_append, htext, List.append_assoc, List.cons_append] <;> rfl
  rw [hstatement]
  exact hframe.imports (plain_of_merged hknown (List.forall_mem_nil _)
    (merge_nil (KnownName.plain_of_mem hknown).nonempty)) _

theorem barren_directives (module : String) (source later : List Char) :
    (importFrom module).Barren [] (directives source) later := by
  intro passed more htop hne
  refine Option.not_isSome_iff_eq_none.mp fun hsome => ?_
  obtain ⟨found, hfound⟩ := Option.isSome_iff_exists.mp hsome
  obtain ⟨hline, _, himport⟩ := exists_import_of_matchAt hfound
  obtain ⟨c, more, rfl⟩ := List.exists_cons_of_ne_nil hne
  obtain ⟨_, _, ⟨_, _, _, _, _⟩, hopening, _⟩ := himport.frame
  obtain rfl : c = 'i' := (List.cons.inj hopening).1
  exact absurd (head_of_directives htop hline 'i' rfl) (by decide)

theorem addImport?_of_inserted (hknown : known ∈ KnownName.table) (source : List Char)
    (later : List Char) :
    addImport? (directives source ++ ((statement known).toList ++ later)) known = none := by
  have hmerge := merge_nil (KnownName.plain_of_mem hknown).nonempty
  refine addImport?_eq_none (.ended (barren_directives _ _ _)) (List.forall_mem_nil _)
    (getLast?_directives source) (imports_statement hknown later) ?_
    (merge_of_merged (bare_of_known hknown) hmerge)
  rw [trim_of_merged (bare_of_known hknown) hmerge]
  exact bindsTypes_of_merged hknown (by decide) hmerge

theorem addImport?_of_replaced (hknown : known ∈ KnownName.table) {found : Match}
    {passed later : List Match}
    (hall : (importFrom known.module).findAll source = passed ++ found :: later)
    (hdeclines : ∀ other ∈ passed, Declines known other)
    (hvalues : ∀ clause ∈ found.capture? 1, bindsTypes clause.text = false)
    (hedited : Edited source known (some fixed) found) :
    Extended known source fixed ∧ addImport? fixed known = none := by
  have hscans := scans_findAll (nullable_importFrom known.module) source
  rw [hall] at hscans
  obtain ⟨front, rest, rfl, hpassed, hfound⟩ := hscans.exists_passed
  obtain ⟨hline, clause, himport⟩ := exists_import_of_matchAt hfound
  obtain ⟨other, hother, ⟨hnone, _⟩ | ⟨merged, hmerged, hfixed⟩⟩ := hedited
  · cases hnone
  obtain rfl := Option.some.inj (himport.capture.symm.trans hother)
  obtain ⟨opening, closing, hframe, hopening, hclosing⟩ := himport.frame
  have hbinds := hvalues clause himport.capture
  have hplain := plain_of_merged hknown himport.plain hmerged
  have hbefore : (front ++ rest).take ((front ++ rest).length - clause.start.rest.length) =
      front ++ opening := by
    rw [hopening, ← List.append_assoc, List.length_append, Nat.add_sub_cancel, List.take_left]
  obtain rfl : fixed = front ++ (opening ++ (merged ++ (closing ++ found.stop.rest))) := by
    rw [Option.some.inj hfixed, hbefore, hclosing]
    simp only [List.append_assoc]
  rw [hopening, himport.rest, hclosing] at hpassed ⊢
  constructor
  · exact .replaced rfl hline hframe himport.plain hbinds fun spelled hspelled =>
      parse_of_merged hknown hspelled hmerged
  · have hreworded := hframe.reworded himport.plain hplain found.stop.rest
    obtain ⟨passed', hpassed', halike⟩ :=
      exists_passed_reworded (not_mem_module hknown) hreworded hpassed hline
    refine addImport?_eq_none hpassed' (declines_of_forall₂ halike hdeclines) hline
      (hframe.imports hplain _) ?_ (merge_of_merged (bare_of_known hknown) hmerged)
    rw [trim_of_merged (bare_of_known hknown) hmerged]
    exact bindsTypes_of_merged hknown (by rwa [bindsTypes_trim himport.last]) hmerged

-- The import of a known name changes nothing else, and it is added once.
theorem addImport?_once (hknown : known ∈ KnownName.table) (h : addImport? source known = some fixed) :
    Extended known source fixed ∧ addImport? fixed known = none := by
  unfold addImport? at h
  split at h
  · rename_i result hmerge
    subst h
    obtain ⟨passed, found, later, hall, hdeclines, hvalues, hedited⟩ := exists_first_edited hmerge
    exact addImport?_of_replaced hknown hall hdeclines hvalues hedited
  · obtain rfl := Option.some.inj h
    rw [List.append_assoc]
    refine ⟨.inserted (directives_append_drop source).symm (getLast?_directives source),
      addImport?_of_inserted hknown source _⟩

end Adding

-- An import of types is passed over, and the one behind it takes the name.
theorem addImport?_once_types :
    ⟨"useState", "react", false⟩ ∈ KnownName.table ∧
      addImport? "import type \x7b FC \x7d from 'react';\nimport React from 'react';\nuseState()".toList
          ⟨"useState", "react", false⟩ = some
        "import type \x7b FC \x7d from 'react';\nimport React, \x7b useState \x7d from 'react';\nuseState()".toList ∧
      Extended ⟨"useState", "react", false⟩
        "import type \x7b FC \x7d from 'react';\nimport React from 'react';\nuseState()".toList
        "import type \x7b FC \x7d from 'react';\nimport React, \x7b useState \x7d from 'react';\nuseState()".toList ∧
      addImport?
        "import type \x7b FC \x7d from 'react';\nimport React, \x7b useState \x7d from 'react';\nuseState()".toList
        ⟨"useState", "react", false⟩ = none := by
  have hknown : ⟨"useState", "react", false⟩ ∈ KnownName.table := by decide
  have hadded : addImport?
      "import type \x7b FC \x7d from 'react';\nimport React from 'react';\nuseState()".toList
      ⟨"useState", "react", false⟩ = some
        "import type \x7b FC \x7d from 'react';\nimport React, \x7b useState \x7d from 'react';\nuseState()".toList := by
    decide +kernel
  exact ⟨hknown, hadded, addImport?_once hknown hadded⟩

end LivePreview.ImportPatch
