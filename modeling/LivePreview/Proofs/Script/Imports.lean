import LivePreview.Diagnosis.ImportPatch
import LivePreview.Proofs.Pattern.Scanning
import LivePreview.Proofs.Script.Statements
import LivePreview.Proofs.Text.Trimming

namespace LivePreview.ImportPatch

open Pattern
open Script.Form
open Spot (between)

theorem groups_chars (word : List Char) : (Pattern.chars word).groups = [] := by
  induction word with
  | nil => rfl
  | cons c word ih =>
      cases word with
      | nil => rfl
      | cons d word => exact ih

-- What stands behind the clause of an import from a module.
def behindClause (module : String) : Pattern :=
  all [blanks, text "from", blanks, quoteMark, text module, quoteMark]

theorem groups_behindClause (module : String) : (behindClause module).groups = [] :=
  List.append_eq_nil_iff.mpr ⟨rfl, List.append_eq_nil_iff.mpr ⟨rfl, List.append_eq_nil_iff.mpr
    ⟨rfl, List.append_eq_nil_iff.mpr ⟨rfl, List.append_eq_nil_iff.mpr ⟨groups_chars _, rfl⟩⟩⟩⟩⟩

-- Blanks that keep words apart.
structure IsGap (gap : List Char) : Prop where
  nonempty : gap ≠ []
  blank : ∀ c ∈ gap, Text.isBlank c = true

theorem isGap_of_reads {gap : List Char} (h : Reads blanks gap) : IsGap gap :=
  ⟨List.length_pos_iff.mp h.of_rounds_set.1, h.of_rounds_set.2⟩

-- A character that no clause holds.
def endsClause (c : Char) : Bool := c == ';' || isQuote c

theorem has_clause (c : Char) : (CharClass.not (.ofList ";'\"".toList)).has c = !endsClause c := by
  have hlist : ";'\"".toList = [';', '\'', '"'] := by decide
  simp [CharClass.has, CharClass.ofList, endsClause, isQuote, hlist]

theorem endsClause_of_isQuote {c : Char} (h : isQuote c = true) : endsClause c = true := by
  rw [endsClause, h, Bool.or_true]

theorem not_endsClause_of_isBlank {c : Char} (h : Text.isBlank c = true) : endsClause c = false := by
  rw [endsClause, isQuote_of_isBlank h, Bool.or_false, beq_eq_false_iff_ne]
  rintro rfl
  revert h
  decide

-- What stands around the clause of an import statement.
inductive Frames (module : String) : List Char → List Char → Prop
  | intro {gap back behind : List Char} {mark mark' : Char} (hgap : IsGap gap) (hback : IsGap back)
      (hbehind : IsGap behind) (hmark : isQuote mark = true) (hmark' : isQuote mark' = true) :
      Frames module ("import".toList ++ gap)
        (back ++ ("from".toList ++ (behind ++ mark :: (module.toList ++ [mark']))))

-- An import statement up to the quotation mark in front of the module.
inductive Fronts (clause : List Char) : List Char → Prop
  | intro {gap back behind : List Char} (hgap : IsGap gap) (hback : IsGap back)
      (hbehind : IsGap behind) (hclause : ∀ c ∈ clause, endsClause c = false) :
      Fronts clause ("import".toList ++ (gap ++ (clause ++ (back ++ ("from".toList ++ behind)))))

-- An import statement with the clause, and what is behind the module.
inductive Imports (module : String) (clause : List Char) : List Char → List Char → Prop
  | intro {head later : List Char} {mark mark' : Char} (hhead : Fronts clause head)
      (hmark : isQuote mark = true) (hmark' : isQuote mark' = true) :
      Imports module clause (head ++ mark :: (module.toList ++ mark' :: later)) later

theorem Frames.imports {module : String} {opening closing clause : List Char}
    (h : Frames module opening closing) (hclause : ∀ c ∈ clause, endsClause c = false)
    (later : List Char) :
    Imports module clause (opening ++ (clause ++ (closing ++ later))) later := by
  obtain @⟨gap, back, behind, mark, mark', hgap, hback, hbehind, hmark, hmark'⟩ := h
  have hassoc : "import".toList ++ gap ++ (clause ++ (back ++ ("from".toList ++
      (behind ++ mark :: (module.toList ++ [mark']))) ++ later)) =
      ("import".toList ++ (gap ++ (clause ++ (back ++ ("from".toList ++ behind))))) ++
        mark :: (module.toList ++ mark' :: later) := by
    simp only [List.append_assoc, List.cons_append, List.nil_append]
  rw [hassoc]
  exact ⟨⟨hgap, hback, hbehind, hclause⟩, hmark, hmark'⟩

section Fronts

variable {clause head : List Char}

theorem Fronts.plain (h : Fronts clause head) : ∀ c ∈ head, endsClause c = false := by
  obtain ⟨hgap, hback, hbehind, hclause⟩ := h
  have himport : ∀ c ∈ "import".toList, endsClause c = false := by decide
  have hfrom : ∀ c ∈ "from".toList, endsClause c = false := by decide
  have hblank {gap : List Char} (h : IsGap gap) : ∀ c ∈ gap, endsClause c = false :=
    fun c hc => not_endsClause_of_isBlank (h.blank c hc)
  simp only [List.forall_mem_append]
  exact ⟨himport, hblank hgap, hclause, hblank hback, hfrom, hblank hbehind⟩

-- The front of a statement tells what the clause is, but for blanks around it.
theorem Fronts.trim_eq {other : List Char} (h : Fronts clause head) (h' : Fronts other head) :
    Text.trim clause = Text.trim other := by
  have hmiddle {clause head : List Char} (h : Fronts clause head) : ∃ middle,
      Text.trimEnd head = "import".toList ++ middle ++ "from".toList ∧
        Text.trim middle = Text.trim clause := by
    obtain @⟨gap, back, behind, hgap, hback, hbehind, _⟩ := h
    refine ⟨gap ++ (clause ++ back), ?_, Text.trim_around hgap.blank hback.blank⟩
    have hsplit : "import".toList ++ (gap ++ (clause ++ (back ++ ("from".toList ++ behind)))) =
        "import".toList ++ (gap ++ (clause ++ back)) ++ "from".toList ++ behind := by
      simp only [List.append_assoc]
    rw [hsplit, Text.trimEnd_append_blanks hbehind.blank]
    refine Text.trimEnd_eq_self fun c hc => ?_
    rw [List.getLast?_append_of_ne_nil _ (by decide)] at hc
    obtain rfl : 'm' = c := Option.some.inj hc
    decide
  obtain ⟨middle, hhead, hclause⟩ := hmiddle h
  obtain ⟨middle', hhead', hother⟩ := hmiddle h'
  have hsame := hhead.symm.trans hhead'
  rw [← hclause, ← hother, List.append_cancel_left (List.append_cancel_right hsame)]

end Fronts

section Matching

variable {module : String} {clause other rest later behind : List Char}

-- A statement is one only.
theorem Imports.unique (h : Imports module clause rest later) (h' : Imports module other rest behind) :
    Text.trim clause = Text.trim other ∧ later = behind := by
  obtain ⟨hhead, hmark, hmark'⟩ := h
  generalize hrest : _ ++ _ :: (module.toList ++ _ :: later) = rest at h'
  obtain ⟨hother, hquote, hquote'⟩ := h'
  obtain ⟨rfl, hmodule⟩ := split_inj hrest hhead.plain hother.plain (endsClause_of_isQuote hmark)
    (endsClause_of_isQuote hquote)
  exact ⟨hhead.trim_eq hother, (List.cons.inj (List.append_cancel_left hmodule)).2⟩

theorem run_importFrom (module : String) (spot : Spot) (found : Captures) (finish : Continuation) :
    (importFrom module).run spot found finish =
      (all [lineStart, text "import", blanks]).run spot found fun spot found =>
        (group 1 (starLazy (noneOf ";'\""))).run spot found fun spot found =>
          (behindClause module).run spot found finish :=
  rfl

theorem reaches_behindClause {spot : Spot} {back gap : List Char} {mark mark' : Char}
    (hback : IsGap back) (hgap : IsGap gap) (hmark : isQuote mark = true)
    (hmark' : isQuote mark' = true) :
    (behindClause module).Reaches spot
      (back ++ ("from".toList ++ (gap ++ ([mark] ++ (module.toList ++ [mark']))))) later := by
  have hset {spot : Spot} {c : Char} {later : List Char} (hc : isQuote c = true) :
      quoteMark.Reaches spot [c] later := by
    have htakes : quoteMark.Takes spot [c] later [] := takes_set hc
    exact htakes.reaches
  have hword {spot : Spot} (word : String) {later : List Char} :
      (text word).Reaches spot word.toList later := (takes_text word).reaches
  have hblanks {spot : Spot} {gap later : List Char} (h : IsGap gap) :
      blanks.Reaches spot gap later := reaches_plus h.nonempty h.blank
  exact (hblanks hback).seq ((hword "from").seq ((hblanks hgap).seq
    ((hset hmark).seq ((hword module).seq (hset hmark')))))

-- An import statement at the start of a line is found.
theorem isSome_matchAt_importFrom {read : List Char} (hline : ∀ c ∈ read.getLast?, c = '\n')
    (h : Imports module clause rest later) :
    ((importFrom module).matchAt (between read rest)).isSome = true := by
  obtain @⟨_, _, mark, mark', ⟨hgap, hback, hbehind, hclause⟩, hmark, hmark'⟩ := h
  rename_i gap back behind
  have hstart {later : List Char} : lineStart.Takes (between read later) [] later [] :=
    takes_assert fun _ => by simpa [Assertion.holds, between, Option.all_eq_true] using hline
  have hword {spot : Spot} {later : List Char} :
      (text "import").Reaches spot "import".toList later := (takes_text "import").reaches
  have hblanks {spot : Spot} {later : List Char} : blanks.Reaches spot gap later :=
    reaches_plus hgap.nonempty hgap.blank
  have hgroup {spot : Spot} {later : List Char} :
      (group 1 (starLazy (noneOf ";'\""))).Reaches spot clause later :=
    .group (reaches_starLazy fun c hc => by rw [has_clause, hclause c hc, Bool.not_false]) 1
  have hwhole {spot : Spot} : (behindClause module).Reaches spot _ later :=
    reaches_behindClause hback hbehind hmark hmark'
  have hrest : "import".toList ++ (gap ++ (clause ++ (back ++ ("from".toList ++ behind)))) ++
      mark :: (module.toList ++ mark' :: later) = "import".toList ++ (gap ++ (clause ++ (back ++
        ("from".toList ++ (behind ++ ([mark] ++ (module.toList ++ [mark']))))))) ++ later := by
    simp only [List.append_assoc, List.cons_append, List.nil_append]
  rw [hrest]
  exact (hstart.reaches.seq (hword.seq (hblanks.seq (hgroup.seq hwhole)))).isSome_matchAt rfl

theorem exists_of_reads_opening {text : List Char}
    (h : Reads (all [lineStart, Pattern.text "import", blanks]) text) :
    ∃ gap, text = "import".toList ++ gap ∧ IsGap gap := by
  obtain ⟨_, _, rfl, hedge, hword⟩ := h.exists_all
  obtain ⟨_, gap, rfl, himport, hgap⟩ := hword.exists_all
  exact ⟨gap, by rw [hedge.eq_assert, himport.eq_chars, List.nil_append], isGap_of_reads hgap⟩

theorem exists_of_reads_behindClause {text : List Char} (h : Reads (behindClause module) text) :
    ∃ back behind mark mark', text = back ++ ("from".toList ++
        (behind ++ mark :: (module.toList ++ [mark']))) ∧
      IsGap back ∧ IsGap behind ∧ isQuote mark = true ∧ isQuote mark' = true := by
  obtain ⟨back, _, rfl, hback, hword⟩ := h.exists_all
  obtain ⟨_, _, rfl, hfrom, hquoted⟩ := hword.exists_all
  obtain ⟨behind, _, rfl, hbehind, hquoted⟩ := hquoted.exists_all
  obtain ⟨_, _, rfl, hmark, hname⟩ := hquoted.exists_all
  obtain ⟨_, _, rfl, hmodule, hmark'⟩ := hname.exists_all
  obtain ⟨mark, rfl, hquote⟩ := Reads.exists_set hmark
  obtain ⟨mark', rfl, hquote'⟩ := Reads.exists_set hmark'
  refine ⟨back, behind, mark, mark', ?_, isGap_of_reads hback, isGap_of_reads hbehind, hquote,
    hquote'⟩
  rw [hfrom.eq_chars, hmodule.eq_chars]
  rfl

-- The match is an import statement from the module, and the clause is its clause, without blanks at
-- the end.
structure IsImport (module : String) (rest : List Char) (found : Match) (clause : Capture) :
    Prop where
  capture : found.capture? 1 = some clause
  frame : ∃ opening closing, Frames module opening closing ∧ rest = opening ++ clause.start.rest ∧
    clause.stop.rest = closing ++ found.stop.rest
  rest : clause.start.rest = clause.text ++ clause.stop.rest
  plain : ∀ c ∈ clause.text, endsClause c = false
  last : ∀ c ∈ clause.text.getLast?, Text.isBlank c = false

theorem IsImport.imports {found : Match} {clause : Capture}
    (h : IsImport module rest found clause) : Imports module clause.text rest found.stop.rest := by
  obtain ⟨opening, closing, hframe, hopening, hclosing⟩ := h.frame
  rw [hopening, h.rest, hclosing]
  exact hframe.imports h.plain _

-- A match is an import statement at the start of a line. Its clause does not end with a blank, since
-- the shorter clause without the blank would have been found.
theorem exists_import_of_matchAt {read : List Char} {found : Match}
    (h : (importFrom module).matchAt (between read rest) = some found) :
    (∀ c ∈ read.getLast?, c = '\n') ∧ ∃ clause, IsImport module rest found clause := by
  have hline := holds_of_matchAt_assert h
  obtain ⟨result, hrun, rfl⟩ := Option.map_eq_some_iff.mp h
  rw [run_importFrom] at hrun
  obtain ⟨front, left, begun, hleft, hfront, _, hinside, hrun⟩ := run_inside hrun
    ⟨Spot.within_between read rest, List.forall_mem_nil _⟩
  rw [run_group] at hrun
  obtain ⟨clause, later, hclauseRest, hclause, hrun, hfewer⟩ := exists_of_starLazy hrun
  have hlater := Spot.rest_skip hclauseRest
  obtain ⟨_, hsource, hspot⟩ := hinside.spot.eq_between
  have hright : (left.skip clause.length).Within (read ++ rest) := by
    rw [hspot, hclauseRest, Spot.skip_between, hsource, hclauseRest, ← List.append_assoc]
    exact Spot.within_between _ _
  obtain ⟨text, stop, made, hstop, hreads, hmade, _, hfinish⟩ := run_inside hrun
    ⟨hright, List.forall_mem_cons.mpr ⟨⟨hinside.spot, hright⟩, hinside.captures⟩⟩
  have hnone : made = [] := by
    refine List.eq_nil_iff_forall_not_mem.mpr fun capture hm => ?_
    obtain ⟨body, hgroup, _⟩ := hmade capture hm
    rw [groups_behindClause] at hgroup
    cases hgroup
  obtain rfl := Option.some.inj hfinish
  obtain ⟨gap, rfl, hgap⟩ := exists_of_reads_opening hfront
  obtain ⟨back, behind, mark, mark', rfl, hback, hbehind, hmark, hmark'⟩ :=
    exists_of_reads_behindClause hreads
  have htext : (⟨1, left, left.skip clause.length⟩ : Capture).text = clause :=
    capture_text (hclauseRest.trans (congrArg (clause ++ ·) hlater.symm))
  refine ⟨fun c hc => ?_, ⟨1, left, left.skip clause.length⟩, by rw [hnone]; rfl,
    ⟨_, _, ⟨hgap, hback, hbehind, hmark, hmark'⟩, hleft, ?_⟩, ?_, fun c hc => ?_, fun c hc => ?_⟩
  · simpa [Assertion.holds, between, Option.mem_def.mp hc] using hline
  · rw [hstop]
  · rw [htext, hlater, hclauseRest]
  · rw [htext] at hc
    rw [← Bool.not_eq_true', ← has_clause]
    exact hclause c hc
  · rw [htext] at hc
    obtain ⟨shorter, rfl⟩ := List.getLast?_eq_some_iff.mp hc
    by_contra hblank
    have hgap' : IsGap (c :: back) :=
      ⟨List.cons_ne_nil _ _, List.forall_mem_cons.mpr ⟨by simpa using hblank, hback.blank⟩⟩
    have hnow : left.rest = shorter ++ ((c :: back) ++ ("from".toList ++ (behind ++ ([mark] ++
        (module.toList ++ [mark'])))) ++ stop.rest) := by
      rw [hclauseRest, ← hlater, hstop]
      simp
    have hsome := reaches_behindClause hgap' hbehind hmark hmark' (Spot.rest_skip hnow)
      (⟨1, left, left.skip shorter.length⟩ :: (begun ++ [])) (fun stop made => some (stop, made)) fun _ => rfl
    rw [hfewer shorter.length (by simp)] at hsome
    cases hsome

end Matching

-- Two texts that start with an import statement and differ in the clause of it.
inductive Reworded : List Char → List Char → Prop
  | intro {clause other head head' tail : List Char} {mark : Char} (hhead : Fronts clause head)
      (hhead' : Fronts other head') (hmark : isQuote mark = true) :
      Reworded (head ++ mark :: tail) (head' ++ mark :: tail)

theorem Frames.reworded {module : String} {opening closing clause other : List Char}
    (h : Frames module opening closing) (hclause : ∀ c ∈ clause, endsClause c = false)
    (hother : ∀ c ∈ other, endsClause c = false) (later : List Char) :
    Reworded (opening ++ (clause ++ (closing ++ later))) (opening ++ (other ++ (closing ++ later))) := by
  obtain @⟨gap, back, behind, mark, mark', hgap, hback, hbehind, hmark, _⟩ := h
  have hassoc (clause : List Char) : "import".toList ++ gap ++ (clause ++ (back ++ ("from".toList ++
      (behind ++ mark :: (module.toList ++ [mark']))) ++ later)) =
      ("import".toList ++ (gap ++ (clause ++ (back ++ ("from".toList ++ behind))))) ++
        mark :: (module.toList ++ mark' :: later) := by
    simp only [List.append_assoc, List.cons_append, List.nil_append]
  rw [hassoc, hassoc]
  exact ⟨⟨hgap, hback, hbehind, hclause⟩, ⟨hgap, hback, hbehind, hother⟩, hmark⟩

theorem Reworded.symm {rest other : List Char} (h : Reworded rest other) : Reworded other rest := by
  obtain ⟨hhead, hhead', hmark⟩ := h
  exact ⟨hhead', hhead, hmark⟩

section Rewording

variable {module : String} {front rest other clause later read : List Char}

-- A statement that starts on a line further up and reaches into an import statement.
theorem Fronts.exists_reworded {head head' : List Char} (h : Fronts clause (front ++ head))
    (hline : front.getLast? = some '\n') (hother : Fronts other head') :
    ∃ clause', Fronts clause' (front ++ head') := by
  have hplain := List.forall_mem_append.mp h.plain
  generalize hwhole : front ++ head = whole at h
  obtain @⟨gap, _, _, hgap, _, _, _⟩ := h
  obtain ⟨b, gap, rfl⟩ := List.exists_cons_of_ne_nil hgap.nonempty
  -- The word stands in front of the line feed, and so does the blank behind it.
  rcases exists_of_append_cons_eq hwhole.symm with ⟨more, hword, _⟩ | ⟨more, rfl, _⟩
  · have hbreak : '\n' ∈ "import".toList := by
      rw [hword]
      exact List.mem_append_left _ (List.mem_of_getLast? hline)
    exact absurd hbreak (by decide)
  · obtain @⟨gap', back, behind, hgap', hback, hbehind, _⟩ := id hother
    have hfirst : IsGap [b] := ⟨List.cons_ne_nil _ _, by simpa using hgap.blank b List.mem_cons_self⟩
    have hclause : ∀ c ∈ more ++ ("import".toList ++ (gap' ++ other)), endsClause c = false := by
      have hmore := hplain.1
      have himport := hother.plain
      simp only [List.forall_mem_append, List.forall_mem_cons] at hmore himport ⊢
      exact ⟨hmore.2.2, himport.1, himport.2.1, himport.2.2.1⟩
    have hassoc : "import".toList ++ b :: more ++
        ("import".toList ++ (gap' ++ (other ++ (back ++ ("from".toList ++ behind))))) =
        "import".toList ++ ([b] ++ ((more ++ ("import".toList ++ (gap' ++ other))) ++
          (back ++ ("from".toList ++ behind)))) := by
      simp only [List.append_assoc, List.cons_append, List.nil_append]
    rw [hassoc]
    exact ⟨_, hfirst, hback, hbehind, hclause⟩

-- A statement that starts on a line further up than an import statement does not depend on the
-- clause of that one, unless it reaches into it. Then its own clause covers the whole of that clause.
theorem Imports.exists_reworded (h : Imports module clause (front ++ rest) later)
    (hline : front.getLast? = some '\n') (hmodule : '\n' ∉ module.toList)
    (hrest : Reworded rest other) :
    ∃ clause' later', Imports module clause' (front ++ other) later' ∧
      ∀ more, later = more ++ rest → clause' = clause ∧ later' = more ++ other := by
  have hnotQuote : isQuote '\n' = false := by decide
  generalize hwhole : front ++ rest = whole at h
  obtain @⟨head, later, mark, mark', hhead, hmark, hmark'⟩ := h
  rw [← List.cons_append, ← List.append_assoc] at hwhole
  rcases exists_of_append_cons_eq hwhole.symm with ⟨tail, hfront, hrestEq⟩ | ⟨more, rfl, rfl⟩
  · rcases exists_of_append_cons_eq hfront with ⟨middle, rfl, htail⟩ | ⟨module', rfl, hmore⟩
    · obtain ⟨hfirst, hsecond, hquote⟩ := hrest
      rw [htail, List.append_assoc, List.cons_append] at hrestEq
      obtain ⟨rfl, rfl⟩ := split_inj hrestEq hfirst.plain (List.forall_mem_append.mp hhead.plain).2
        (endsClause_of_isQuote hquote) (endsClause_of_isQuote hmark)
      obtain ⟨clause', hclause'⟩ := hhead.exists_reworded hline hsecond
      refine ⟨clause', later, ?_, fun more hmore => ?_⟩
      · rw [← List.append_assoc]
        exact ⟨hclause', hquote, hmark'⟩
      · have hlength := congrArg List.length hmore
        simp only [List.length_append, List.length_cons] at hlength
        omega
    · -- The line does not end within the module.
      have hbreak : '\n' ∈ module' := by
        rw [List.getLast?_append, List.getLast?_cons] at hline
        cases hlast : module'.getLast? with
        | none =>
            rw [hlast] at hline
            obtain rfl : mark = '\n' := Option.some.inj hline
            rw [hnotQuote] at hmark
            cases hmark
        | some c =>
            rw [hlast] at hline
            obtain rfl : c = '\n' := Option.some.inj hline
            exact List.mem_of_getLast? hlast
      exact absurd (hmore ▸ List.mem_append_left _ hbreak) hmodule
  · refine ⟨clause, more ++ other, ?_, fun more' hmore' => ?_⟩
    · have hassoc : head ++ mark :: module.toList ++ mark' :: more ++ other =
          head ++ mark :: (module.toList ++ mark' :: (more ++ other)) := by
        simp only [List.append_assoc, List.cons_append]
      rw [hassoc]
      exact ⟨hhead, hmark, hmark'⟩
    · exact ⟨rfl, congrArg (· ++ other) (List.append_cancel_right hmore')⟩

-- The clauses of two matches are the same, but for blanks around them.
def Alike (found found' : Match) : Prop :=
  ∃ clause clause', found.capture? 1 = some clause ∧ found'.capture? 1 = some clause' ∧
    Text.trim clause.text = Text.trim clause'.text ∧
    (∀ c ∈ clause.text.getLast?, Text.isBlank c = false) ∧
    ∀ c ∈ clause'.text.getLast?, Text.isBlank c = false

theorem isSome_matchAt_reworded (hline : front.getLast? = some '\n')
    (hmodule : '\n' ∉ module.toList) (hrest : Reworded rest other)
    (h : ((importFrom module).matchAt (between read (front ++ rest))).isSome = true) :
    ((importFrom module).matchAt (between read (front ++ other))).isSome = true := by
  obtain ⟨found, hfound⟩ := Option.isSome_iff_exists.mp h
  obtain ⟨hstart, clause, himport⟩ := exists_import_of_matchAt hfound
  obtain ⟨_, _, hother, _⟩ := himport.imports.exists_reworded hline hmodule hrest
  exact isSome_matchAt_importFrom hstart hother

-- A match in front of an import statement is there whatever the clause of that one is.
theorem exists_matchAt_reworded {found : Match} {text more : List Char}
    (hline : (text ++ more).getLast? = some '\n') (hmodule : '\n' ∉ module.toList)
    (hrest : Reworded rest other)
    (h : (importFrom module).matchAt (between read (text ++ (more ++ rest))) = some found)
    (hstop : found.stop = between (read ++ text) (more ++ rest)) :
    ∃ found', (importFrom module).matchAt (between read (text ++ (more ++ other))) = some found' ∧
      found'.stop = between (read ++ text) (more ++ other) ∧ Alike found found' := by
  obtain ⟨hstart, clause, himport⟩ := exists_import_of_matchAt h
  have himports := himport.imports
  rw [← List.append_assoc] at himports
  obtain ⟨_, _, hother, hsame⟩ := himports.exists_reworded hline hmodule hrest
  obtain ⟨rfl, rfl⟩ := hsame more (congrArg Spot.rest hstop)
  rw [List.append_assoc] at hother
  obtain ⟨found', hfound'⟩ :=
    Option.isSome_iff_exists.mp (isSome_matchAt_importFrom hstart hother)
  obtain ⟨_, clause', himport'⟩ := exists_import_of_matchAt hfound'
  obtain ⟨htrim, hrest'⟩ := hother.unique himport'.imports
  obtain ⟨_, text', later, hsplit, _, hstop'⟩ := exists_stop_of_matchAt hfound'
  obtain rfl : more ++ other = later := hrest'.trans (congrArg Spot.rest hstop')
  obtain rfl := List.append_cancel_right hsplit
  exact ⟨found', hfound', hstop', clause, clause', himport.capture, himport'.capture, htrim,
    himport.last, himport'.last⟩

theorem nullable_importFrom (module : String) : (importFrom module).nullable = false := rfl

-- The same matches are passed in front of an import statement whatever the clause of that one is.
theorem exists_passed_reworded {passed : List Match} (hmodule : '\n' ∉ module.toList)
    (hrest : Reworded rest other) (h : (importFrom module).Passed rest read front passed)
    (hline : ∀ c ∈ front.getLast?, c = '\n') :
    ∃ passed', (importFrom module).Passed other read front passed' ∧
      List.Forall₂ Alike passed passed' := by
  have hend {front more : List Char} (hne : more ≠ [])
      (hline : ∀ c ∈ (front ++ more).getLast?, c = '\n') : more.getLast? = some '\n' := by
    rw [List.getLast?_append_of_ne_nil _ hne, List.getLast?_eq_some_getLast hne] at hline
    rw [List.getLast?_eq_some_getLast hne, hline _ rfl]
  have hbarren {read front behind : List Char} (hline : ∀ c ∈ (front ++ behind).getLast?, c = '\n')
      (h : (importFrom module).Barren read front (behind ++ rest)) :
      (importFrom module).Barren read front (behind ++ other) := by
    rintro passed more rfl hne
    refine Option.not_isSome_iff_eq_none.mp fun hsome => ?_
    rw [← List.append_assoc] at hsome
    have hmore : (more ++ behind).getLast? = some '\n' :=
      hend (by simp [hne]) (by rwa [List.append_assoc] at hline)
    have hthere := isSome_matchAt_reworded hmore hmodule hrest.symm hsome
    rw [List.append_assoc, h passed more rfl hne] at hthere
    cases hthere
  induction h with
  | @ended read front h =>
      have hnone : (importFrom module).Barren read front ([] ++ other) :=
        hbarren (by rwa [List.append_nil]) h
      exact ⟨[], .ended hnone, .nil⟩
  | @found read front text behind found more hfront hmatch hstop _ ih =>
      have htext : text ≠ [] := ne_nil_of_matchAt (nullable_importFrom module) hmatch hstop
      rw [← List.append_assoc text] at hfront
      have hnone := hbarren hline hfront
      rw [List.append_assoc text] at hnone
      obtain ⟨found', hmatch', hstop', halike⟩ :=
        exists_matchAt_reworded (hend (by simp [htext]) hline) hmodule hrest hmatch hstop
      obtain ⟨more', hmore, hall⟩ := ih fun c hc => hline c (by
        rw [List.getLast?_append, List.getLast?_append, hc]
        rfl)
      exact ⟨found' :: more', .found hnone hmatch' hstop' hmore, .cons halike hall⟩

end Rewording

end LivePreview.ImportPatch
