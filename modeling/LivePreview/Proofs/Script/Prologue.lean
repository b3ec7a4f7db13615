import LivePreview.Diagnosis.ImportPatch
import LivePreview.Proofs.Diagnosis.KnownNames
import LivePreview.Proofs.Script.Passing

namespace LivePreview.Script

open Text (Cursor)
open Scan

-- Code is not read differently at the scan than at the start of a script.
inductive Scan.Fresh (s : Scan) : Prop
  | same (hawaits : s.awaitsExpression = true) (hstring : s.opensString = true) : Fresh s
  | plain (h : ∀ c ∈ (s.rest.dropWhile Text.isBlank).head?, c ∉ ['/', '<', '\'']) : Fresh s

theorem Scan.Fresh.of_semicolon {s : Scan} (h : s.last = some (.punctuation ';')) : s.Fresh := by
  have hmember : expressionPunctuation.contains ';' = true := by decide
  refine .same ?_ ?_
  · unfold awaitsExpression
    rw [h]
    exact hmember
  · unfold opensString
    rw [h]

theorem Scan.Fresh.tokensAlike {s t : Scan} (hs : s.Fresh) (ht : t.Fresh) (h : s.rest = t.rest) :
    s.TokensAlike t := by
  cases hs with
  | plain hs => exact .plain hs
  | same hawaits hstring =>
      cases ht with
      | plain ht => exact .plain (h ▸ ht)
      | same hawaits' hstring' =>
          exact .same (hawaits.trans hawaits'.symm) (hstring.trans hstring'.symm)

-- Directives, each on the lines that it is said to be on: a string without an escape, behind which
-- there is a semicolon, or else a token for which it does not matter what stands in front of it.
inductive IsPrologue (later : List Char) : List Char → Prop
  | nil : IsPrologue later []
  | directive {indent body tail rest : List Char} {mark : Char}
      (hindent : ∀ c ∈ indent, Text.isBlank c = true) (hmark : mark = '"' ∨ mark = '\'')
      (hbody : ∀ c ∈ body, c ≠ mark ∧ c ≠ '\\' ∧ c ≠ '\n')
      (htail : ∀ c ∈ tail, c = ';' ∨ Text.isBlank c = true)
      (hends : ';' ∈ tail ∨
        ∀ c ∈ ((rest ++ later).dropWhile Text.isBlank).head?, c ∉ ['/', '<', '\''])
      (h : IsPrologue later rest) :
      IsPrologue later (indent ++ mark :: (body ++ mark :: (tail ++ rest)))

-- What is said of the text behind the directives is so of a word too.
theorem IsPrologue.of_word {later added top : List Char} (h : IsPrologue later top)
    (hadded : added.head? = some 'i') : IsPrologue (added ++ later) top := by
  induction h with
  | nil => exact .nil
  | @directive indent body tail rest mark hindent hmark hbody htail hends hrest ih =>
      refine .directive hindent hmark hbody htail (hends.imp_right fun hends => ?_) ih
      cases hrest with
      | nil =>
          rw [List.nil_append, List.eq_cons_of_mem_head? hadded, List.cons_append,
            List.dropWhile_cons_of_neg (by decide)]
          intro c hc
          obtain rfl : 'i' = c := Option.some.inj hc
          decide
      | @directive indent' body' tail' rest' mark' hindent' hmark' _ _ _ _ =>
          have hblank : ¬Text.isBlank mark' = true := by
            rcases hmark' with rfl | rfl <;> decide
          simp only [List.append_assoc, List.cons_append, List.dropWhile_append_of_pos hindent',
            List.dropWhile_cons_of_neg hblank] at hends ⊢
          exact hends

section Reading

variable {base : Option Nat} {s : Scan} {text later rest : List Char} {c : Char}

theorem codeMove_step (hc : c = ';' ∨ Text.isBlank c = true) :
    codeMove base s (c :: rest) = .on (s.step c rest) := by
  rcases hc with rfl | hblank
  · have hname : inName ';' = false := by decide
    simp [codeMove, tokenMove, bracketMove, hname]
  · rw [codeMove_inClause base s rest (by simp [inClause, hblank]),
      if_neg (by simp [not_inName_of_isBlank hblank])]

-- Blanks are passed over, and so are semicolons.
theorem exists_read_gap (base : Option Nat) (htext : ∀ c ∈ text, c = ';' ∨ Text.isBlank c = true)
    (hs : s.rest = text ++ later) :
    ∃ t : Scan, readCode base s = readCode base t ∧ t.rest = later ∧ t.openings = s.openings ∧
      t.last = if ';' ∈ text then some (.punctuation ';') else s.last := by
  induction text generalizing s with
  | nil => exact ⟨s, rfl, hs, rfl, rfl⟩
  | cons c text ih =>
      have hc := htext c List.mem_cons_self
      have hmove : readCode base s = readCode base (s.step c (text ++ later)) := by
        rw [readCode_eq, hs, List.cons_append, codeMove_step hc]
        rfl
      obtain ⟨t, ht, hrest, hopenings, hlast⟩ :=
        ih (s := s.step c (text ++ later)) (fun d hd => htext d (List.mem_cons_of_mem _ hd)) rfl
      refine ⟨t, hmove.trans ht, hrest, hopenings, hlast.trans ?_⟩
      have hsemicolon : Text.isBlank ';' = false := by decide
      by_cases htail : ';' ∈ text
      · simp [htail]
      · rcases hc with rfl | hblank
        · simp [htail, Scan.step, hsemicolon]
        · have hne : ';' ≠ c := by
            rintro rfl
            rw [hsemicolon] at hblank
            cases hblank
          simp [htail, hne, Scan.step, hblank]

theorem stringEnd_append {mark : Char} (hmark : mark ≠ '\\' ∧ mark ≠ '\n')
    (htext : ∀ c ∈ text, c ≠ mark ∧ c ≠ '\\' ∧ c ≠ '\n') :
    stringEnd mark (text ++ mark :: later) = some later := by
  induction text with
  | nil => rw [List.nil_append, stringEnd_cons, if_neg hmark.2, if_neg hmark.1, if_pos rfl]
  | cons c text ih =>
      obtain ⟨hquote, hescape, hline⟩ := htext c List.mem_cons_self
      rw [List.cons_append, stringEnd_cons, if_neg hline, if_neg hescape, if_neg hquote]
      exact ih fun d hd => htext d (List.mem_cons_of_mem _ hd)

-- A string is read to its second quotation mark.
theorem exists_read_string (base : Option Nat) {mark : Char} (hmark : mark = '"' ∨ mark = '\'')
    (hopens : mark = '\'' → s.opensString = true)
    (htext : ∀ c ∈ text, c ≠ mark ∧ c ≠ '\\' ∧ c ≠ '\n')
    (hs : s.rest = mark :: (text ++ mark :: later)) :
    ∃ t : Scan, readCode base s = readCode base t ∧ t.rest = later ∧ t.openings = s.openings ∧
      t.last = some .value := by
  have hplain : mark ≠ '\\' ∧ mark ≠ '\n' ∧ mark ≠ '/' := by
    rcases hmark with rfl | rfl <;> decide
  obtain ⟨hescape, hline, hslash⟩ := hplain
  have hend := rest_skipString mark ⟨text ++ mark :: later, s.offset + 1⟩
  rw [stringEnd_append ⟨hescape, hline⟩ htext] at hend
  obtain ⟨d, hd, hrest⟩ := Option.map_eq_some_iff.mp hend
  have hquote : mark = '"' ∨ mark = '\'' ∧ s.opensString = true :=
    hmark.imp_right fun h => ⟨h, hopens h⟩
  have hmove : codeMove base s (mark :: (text ++ mark :: later)) = .on (s.afterValue d.1) := by
    simp only [codeMove, hslash, false_and, if_false, tokenMove, if_pos hquote, hd]
  exact ⟨s.afterValue d.1, by rw [readCode_eq, hs, hmove]; rfl, hrest, rfl, rfl⟩

theorem exists_read_prologue (base : Option Nat) {top : List Char} (h : IsPrologue later top)
    (hfresh : s.Fresh) (hs : s.rest = top ++ later) :
    ∃ t : Scan, readCode base s = readCode base t ∧ t.rest = later ∧ t.openings = s.openings ∧
      t.Fresh := by
  induction h generalizing s with
  | nil => exact ⟨s, rfl, hs, rfl, hfresh⟩
  | @directive indent body tail rest mark hindent hmark hbody htail hends _ ih =>
      have hsemicolon : ';' ∉ indent := fun hmem => absurd (hindent _ hmem) (by decide)
      obtain ⟨t, ht, hrest, hopenings, hlast⟩ := exists_read_gap base
        (fun c hc => .inr (hindent c hc)) (hs.trans (List.append_assoc ..))
      rw [if_neg hsemicolon] at hlast
      have hopens : mark = '\'' → t.opensString = true := by
        rintro rfl
        cases hfresh with
        | same _ hstring =>
            unfold opensString at hstring ⊢
            rwa [hlast]
        | plain h =>
            rw [hs, List.append_assoc, List.dropWhile_append_of_pos hindent, List.cons_append,
              List.dropWhile_cons_of_neg (by decide)] at h
            exact absurd (h '\'' rfl) (by decide)
      have hquoted : t.rest = mark :: (body ++ mark :: (tail ++ (rest ++ later))) := by
        simpa using hrest
      obtain ⟨u, hu, hrest', hopenings', hlast'⟩ := exists_read_string base hmark hopens hbody hquoted
      obtain ⟨v, hv, hrest'', hopenings'', hlast''⟩ := exists_read_gap base htail hrest'
      have hfresh' : v.Fresh := by
        rcases hends with hmem | hends
        · exact .of_semicolon (hlast''.trans (if_pos hmem))
        · exact .plain (hrest'' ▸ hends)
      obtain ⟨w, hw, hbehind, hstill, hfresh''⟩ := ih hfresh' hrest''
      refine ⟨w, ?_, hbehind, ?_, hfresh''⟩
      · rw [ht, hu, hv, hw]
      · rw [hstill, hopenings'', hopenings', hopenings]

theorem isFlat_of_known {known : KnownName} (h : known ∈ KnownName.table) :
    IsFlat known.name.toList := by
  intro c hc
  rw [inClause, inName_of_isAlphanum ((KnownName.plain_of_mem h).name c hc), Bool.true_or,
    Bool.true_or]

theorem exists_parts_of_statement {known : KnownName} (hname : IsFlat known.name.toList) :
    ∃ front, (ImportPatch.statement known).toList =
        front ++ ("from".toList ++ ' ' :: '\'' :: (known.module.toList ++ ['\'', ';', '\n'])) ∧
      IsPlain front ∧ front.head? = some 'i' ∧ front.getLast? = some ' ' := by
  have htext : ∀ text : String, toString text = text := fun _ => rfl
  have himport : IsFlat "import ".toList := by decide
  have hspace : IsFlat [' '] := by decide
  have hlast : ∀ c ∈ "import ".toList.getLast?, inName c = false :=
    not_inName_of_getLast? rfl (by decide)
  have hhead : ∀ text, ("import ".toList ++ text).head? = some 'i' := fun _ => rfl
  unfold ImportPatch.statement
  split
  · refine ⟨"import ".toList ++ (known.name.toList ++ [' ']), ?_,
      .flat (himport.append (hname.append hspace)), hhead _, ?_⟩
    · simp only [String.toList_append, htext, List.append_assoc]
      rfl
    · rw [← List.append_assoc]
      exact List.getLast?_concat
  · refine ⟨"import ".toList ++ (braced (' ' :: (known.name.toList ++ [' '])) ++ [' ']), ?_,
      .braces himport (hspace.append (hname.append hspace)) hspace hlast, hhead _, ?_⟩
    · simp only [String.toList_append, htext, List.append_assoc, braced, List.cons_append]
      rfl
    · rw [← List.append_assoc]
      exact List.getLast?_concat

-- A statement that imports a known name is read to its end.
theorem exists_read_statement (base : Option Nat) {known : KnownName}
    (hknown : known ∈ KnownName.table) (hs : s.rest = (ImportPatch.statement known).toList ++ later)
    (hbase : ∀ depth ∈ base, depth ≤ s.openings.length) :
    ∃ t : Scan, readCode base s = readCode base t ∧ t.rest = later ∧ t.openings = s.openings ∧
      t.Fresh := by
  have hmodule : ∀ c ∈ known.module.toList, c ≠ '\'' ∧ c ≠ '\\' ∧ c ≠ '\n' := fun c hc => by
    have hplain := KnownName.plain_of_mem hknown
    exact ⟨hplain.ne_of_mem_module hc (by decide), hplain.ne_of_mem_module hc (by decide),
      hplain.ne_of_mem_module hc (by decide)⟩
  obtain ⟨front, hparts, hplain, hhead, hlast⟩ := exists_parts_of_statement (isFlat_of_known hknown)
  have hquote : OpensQuote (' ' :: '\'' :: (known.module.toList ++ '\'' :: ([';', '\n'] ++ later))) :=
    ⟨[' '], '\'', _, rfl, ⟨by simp, by decide⟩, .inr rfl⟩
  have hpasses := passes_import hplain hhead (not_inName_of_getLast? hlast (by decide)) hquote
  have hspace : ∀ c ∈ [' '], c = ';' ∨ Text.isBlank c = true := by decide
  have hend : ∀ c ∈ [';', '\n'], c = ';' ∨ Text.isBlank c = true := by decide
  rw [hparts] at hs
  obtain ⟨t, ht, hrest, hopenings, hword⟩ := hpasses.code base s (by simpa using hs) hbase
  obtain ⟨u, hu, hrest', hopenings', hspace⟩ := exists_read_gap base hspace hrest
  have hfrom : u.opensString = true := by
    have hbegins : beginsExpression "from".toList = true := by decide
    unfold opensString
    rw [hspace, if_neg (by decide), hword]
    exact hbegins
  obtain ⟨v, hv, hrest'', hopenings'', _⟩ := exists_read_string base (.inr rfl)
    (fun _ => hfrom) hmodule hrest'
  obtain ⟨w, hw, hbehind, hstill, hend⟩ := exists_read_gap base hend hrest''
  refine ⟨w, ?_, hbehind, ?_, .of_semicolon hend⟩
  · rw [ht, hu, hv, hw]
  · rw [hstill, hopenings'', hopenings', hopenings]

end Reading

end LivePreview.Script
