import LivePreview.Proofs.Pattern.Opening
import LivePreview.Proofs.Pattern.Taking
import LivePreview.Script.Form

namespace LivePreview.Script.Form

open Pattern

-- The word with which a statement or an expression of each form opens.
section Opens

theorem opens_importStatement : importStatement.Opens "import".toList .blank :=
  .of_assert (.of_indent (by decide) (opens_word "import" rfl))

private theorem opens_exportLine (more : List Pattern) :
    (all (lineStart :: indent :: text "export" :: blanks :: more)).Opens "export".toList .blank :=
  .of_assert (.of_indent (by decide) (opens_word "export" rfl))

theorem opens_reexportStatement : reexportStatement.Opens "export".toList .blank :=
  opens_exportLine _

private theorem opens_indentedExport (index : Nat) (more : List Pattern) :
    (all (lineStart :: group index indent :: text "export" :: blanks :: more)).Opens
      "export".toList .blank :=
  .of_assert (.of_group (.of_indent (by decide) (opens_word "export" rfl)))

theorem opens_defaultDeclaration : defaultDeclaration.Opens "export".toList .blank :=
  opens_indentedExport 1 _

theorem opens_valueDeclaration : valueDeclaration.Opens "export".toList .blank :=
  opens_indentedExport 1 _

theorem opens_typeDeclaration : typeDeclaration.Opens "export".toList .blank :=
  opens_indentedExport 1 _

private theorem opens_export (more : List Pattern) :
    (all (exportWord :: more)).Opens "export".toList .blank :=
  .of_first (.of_assert (opens_word "export" rfl))

theorem opens_defaultExpression : defaultExpression.Opens "export".toList .blank := opens_export _

theorem opens_listStatement : listStatement.Opens "export".toList .blank := opens_export _

end Opens

-- A quotation mark as patterns know it.
def isQuote (c : Char) : Bool := c == '\'' || c == '"'

section Call

-- The first character that passes a test stands in one place.
theorem split_inj {test : Char → Bool} {front other back behind : List Char} {c d : Char}
    (h : front ++ c :: back = other ++ d :: behind) (hfront : ∀ e ∈ front, test e = false)
    (hother : ∀ e ∈ other, test e = false) (hc : test c = true) (hd : test d = true) :
    front = other ∧ back = behind := by
  induction front generalizing other with
  | nil =>
      cases other with
      | nil => exact ⟨rfl, (List.cons.inj h).2⟩
      | cons e other =>
          obtain ⟨rfl, _⟩ := List.cons.inj h
          rw [hother c List.mem_cons_self] at hc
          cases hc
  | cons e front ih =>
      cases other with
      | nil =>
          obtain ⟨rfl, _⟩ := List.cons.inj h
          rw [hfront e List.mem_cons_self] at hd
          cases hd
      | cons e' other =>
          obtain ⟨rfl, hrest⟩ := List.cons.inj h
          obtain ⟨rfl, rfl⟩ := ih hrest (fun d hd => hfront d (List.mem_cons_of_mem _ hd))
            fun d hd => hother d (List.mem_cons_of_mem _ hd)
          exact ⟨rfl, rfl⟩

theorem isQuote_of_isBlank {c : Char} (h : Text.isBlank c = true) : isQuote c = false := by
  rw [isQuote, Bool.or_eq_false_iff, beq_eq_false_iff_ne, beq_eq_false_iff_ne]
  constructor <;> rintro rfl <;> cases h

theorem exists_of_reads_call {word : String} {text : List Char} (h : Reads (call word) text) :
    ∃ gap mark name other later, text = (word.toList ++ '(' :: gap) ++ mark :: (name ++ other :: later) ∧
      (∀ c ∈ gap, Text.isBlank c = true) ∧ isQuote mark = true ∧ isQuote other = true ∧
      ∀ c ∈ name, isQuote c = false ∧ c ≠ '\n' := by
  obtain ⟨_, _, rfl, hedge, hcall⟩ := h.exists_all
  obtain ⟨_, _, rfl, hword, hcall⟩ := hcall.exists_all
  obtain ⟨_, _, rfl, hopen, hcall⟩ := hcall.exists_all
  obtain ⟨gap, _, rfl, hgap, hcall⟩ := hcall.exists_all
  obtain ⟨_, later, rfl, hmodule, _⟩ := hcall.exists_all
  obtain ⟨_, _, rfl, hmark, hmodule⟩ := hmodule.exists_all
  obtain ⟨name, _, rfl, hname, hother⟩ := hmodule.exists_all
  obtain ⟨mark, rfl, hopening⟩ := hmark.exists_set
  obtain ⟨other, rfl, hclosing⟩ := Reads.exists_set hother
  refine ⟨gap, mark, name, other, later, ?_, hgap.of_rounds_set.2, hopening, hclosing, fun c hc => ?_⟩
  · rw [hedge.eq_assert, hword.eq_chars, hopen.eq_char]
    simp
  · have hhas := hname.of_group.of_rounds_set.2 c hc
    simpa [CharClass.has, CharClass.ofList, isQuote, and_assoc] using hhas

-- A part of a text ends before a character of it or behind.
theorem exists_of_append_cons_eq {front back read rest : List Char} {c : Char}
    (h : front ++ c :: back = read ++ rest) :
    (∃ more, front = read ++ more ∧ rest = more ++ c :: back) ∨
      ∃ more, read = front ++ c :: more ∧ back = more ++ rest := by
  rcases List.append_eq_append_iff.mp h with ⟨more, hread, hmore⟩ | ⟨more, hfront, hmore⟩
  · cases more with
    | nil => exact .inl ⟨[], by simpa using hread.symm, hmore.symm⟩
    | cons d more =>
        obtain ⟨rfl, hback⟩ := List.cons.inj hmore
        exact .inr ⟨more, hread, hback⟩
  · exact .inl ⟨more, hfront, hmore⟩

-- A text with one quoted part in it, before which no call of the word is opened, has no such call.
theorem calm_call {word : String} {first : Char} {letters front name back : List Char}
    (hword : word.toList = first :: letters) (hfirst : Text.isWordCharacter first = true)
    (hletters : ∀ c ∈ word.toList, isQuote c = false ∧ c ≠ '\n')
    (hfront : ∀ c ∈ front, isQuote c = false) (hname : ∀ c ∈ name, isQuote c = false)
    (hback : ∀ c ∈ back, isQuote c = false ∧ c ≠ first)
    (hopen : ∀ read gap, front = read ++ (word.toList ++ '(' :: gap) →
      ∃ c ∈ read.getLast?, Text.isWordCharacter c = true) :
    (call word).Calm (front ++ '"' :: (name ++ '"' :: back)) := by
  rintro spot read rest later htext hrest hlater hlast
  cases hmatch : (call word).matchAt spot with
  | none => rfl
  | some found =>
      obtain ⟨_, _, text, hspot, hreads⟩ := sound_matchAt hmatch
      obtain ⟨gap, mark, module, other, behind, rfl, hgap, hmark, hother, hmoduleChars⟩ :=
        exists_of_reads_call hreads
      have hcall : ∀ c ∈ word.toList ++ '(' :: gap, isQuote c = false := by
        intro c hc
        rcases List.mem_append.mp hc with hc | hc
        · exact (hletters c hc).1
        · rcases List.mem_cons.mp hc with rfl | hc
          · rfl
          · exact isQuote_of_isBlank (hgap c hc)
      have hsame : rest ++ later = (word.toList ++ '(' :: gap) ++
          mark :: (module ++ other :: (behind ++ found.stop.rest)) := by
        rw [← hrest, hspot]
        simp
      -- The call opens before the quoted part, within it or behind it.
      rcases exists_of_append_cons_eq htext with ⟨more, rfl, rfl⟩ | ⟨more, rfl, hbehind⟩
      · rw [List.append_assoc, List.cons_append] at hsame
        obtain ⟨rfl, _⟩ := split_inj hsame (fun c hc => hfront c (by simp [hc])) hcall rfl hmark
        obtain ⟨c, hc, hbefore⟩ := hopen read gap rfl
        have hedge := holds_of_matchAt_assert hmatch
        rw [hword] at hrest
        simp [Assertion.holds, hlast c hc, hbefore, hrest, hfirst] at hedge
      rcases exists_of_append_cons_eq hbehind with ⟨more, rfl, rfl⟩ | ⟨more, rfl, rfl⟩
      · rw [List.append_assoc, List.cons_append] at hsame
        obtain ⟨rfl, hmodule⟩ := split_inj hsame (fun c hc => hname c (by simp [hc])) hcall rfl hmark
        -- The module ends behind the text, on another line.
        rcases List.append_eq_append_iff.mp hmodule with ⟨more, rfl, hmore⟩ | ⟨more, rfl, hmore⟩
        · cases more with
          | nil =>
              rw [hlater other (by rw [hmore]; rfl)] at hother
              cases hother
          | cons d more =>
              have hbreak := hlater d (by rw [hmore]; rfl)
              exact absurd hbreak (hmoduleChars d (by simp)).2
        · cases more with
          | nil =>
              rw [hlater other (by rw [← List.nil_append later, ← hmore]; rfl)] at hother
              cases hother
          | cons d more =>
              obtain ⟨rfl, _⟩ := List.cons.inj hmore
              rw [(hback other (by simp)).1] at hother
              cases hother
      · rw [hword, List.cons_append] at hsame
        cases rest with
        | nil => 
            have hbreak := hlater first (by rw [← List.nil_append later, hsame]; rfl)
            exact absurd hbreak (hletters first (hword ▸ List.mem_cons_self)).2
        | cons c rest =>
            obtain ⟨rfl, _⟩ := List.cons.inj hsame
            exact absurd rfl (hback c (by simp)).2

end Call

section Import

-- The characters of the clause of an import.
def clauseChars : CharClass :=
  .union .word (.union .blank (.ofList ['$', '*', '\x7b', '\x7d', ',']))

-- A clause with no blanks around it and without a word in it that is read as the end of the clause
-- or as the mark of an import of types.
structure IsClause (clause : List Char) : Prop where
  nonempty : clause ≠ []
  chars : ∀ c ∈ clause, clauseChars.has c = true
  head : ∀ c ∈ clause.head?, Text.isBlank c = false
  last : ∀ c ∈ clause.getLast?, Text.isBlank c = false
  noFrom : ∀ c d, Text.isBlank c = true → Text.isBlank d = true →
    ¬ c :: ("from".toList ++ [d]) <:+: clause ++ [' ']
  noType : ∀ c, Text.isBlank c = true → ¬ "type".toList ++ [c] <+: clause ++ [' ']

-- A name that can be quoted in an import.
structure IsQuotable (name : List Char) : Prop where
  nonempty : name ≠ []
  chars : ∀ c ∈ name, isQuote c = false ∧ c ≠ '\n'

-- An import of what the clause names.
def importText (clause : List Char) (mark : Char) (name : List Char) : List Char :=
  "import".toList ++ ' ' :: (clause ++ ' ' :: ("from".toList ++ ' ' ::
    mark :: (name ++ [mark, ';'])))

variable {spot : Spot} {clause name later : List Char} {mark : Char}

theorem takes_moduleName (index : Nat) (hmark : isQuote mark = true) (hname : IsQuotable name) :
    (moduleName index).Takes spot (mark :: (name ++ [mark])) later [(index, name)] := by
  have hset : ∀ {spot : Spot} {later : List Char}, quoteMark.Takes spot [mark] later [] :=
    takes_set hmark
  have hchars : ∀ c, (CharClass.not (.ofList "'\"\n".toList)).has c = true ↔
      isQuote c = false ∧ c ≠ '\n' := by
    intro c
    simp [CharClass.has, CharClass.ofList, isQuote, and_assoc]
  refine hset.seq (.seq (.group (takes_plus hname.nonempty (fun c hc => ?_) fun c hc => ?_) _) hset)
  · exact (hchars c).mpr (hname.chars c hc)
  · obtain rfl : mark = c := Option.some.inj hc
    rw [← Bool.not_eq_true, hchars, hmark]
    simp

theorem takes_statementEnd : statementEnd.Takes spot [';'] later [] := by
  have hindent {spot : Spot} : indent.Takes spot [] ([';'] ++ later) [] :=
    takes_star (by simp) (by simp; decide)
  exact hindent.seq (takes_char ';').maybe

theorem takes_blank (h : ∀ c ∈ later.head?, Text.isBlank c = false) :
    blanks.Takes spot [' '] later [] :=
  takes_plus (by simp) (by decide) h

-- What a word and one more character begin does not reach beyond a character that is not in the word.
private theorem prefix_concat {word front later : List Char} {c d : Char}
    (h : word ++ [c] <+: front ++ d :: later) (hd : d ∉ word) : word ++ [c] <+: front ++ [d] := by
  have hfront : front ++ [d] <+: front ++ d :: later := ⟨later, by simp⟩
  by_cases hlength : (word ++ [c]).length ≤ (front ++ [d]).length
  · exact List.prefix_of_prefix_length_le h hfront hlength
  · have hshort : front ++ [d] <+: word ++ [c] :=
      List.prefix_of_prefix_length_le hfront h (by omega)
    obtain ⟨more, hmore⟩ : front ++ [d] <+: word := by
      refine List.prefix_of_prefix_length_le hshort (List.prefix_append _ _) ?_
      simp only [List.length_append, List.length_singleton] at hlength ⊢
      omega
    exact absurd (hmore ▸ by simp) hd

private theorem not_reads_type (hclause : IsClause clause) {front other : List Char}
    (h : clause ++ ' ' :: later = front ++ other) :
    ¬Reads (group 1 (seq (text "type") blanks)) front := by
  intro hreads
  obtain ⟨_, gap, rfl, hword, hgap⟩ := hreads.of_group.exists_seq
  obtain ⟨c, gap, rfl, hc⟩ := hgap.exists_first rfl
  have hprefix : "type".toList ++ [c] <+: clause ++ ' ' :: later :=
    ⟨gap ++ other, by rw [h, hword.eq_chars]; simp⟩
  exact hclause.noType c hc (prefix_concat hprefix (by decide))

-- The clause does not end before its end.
private theorem not_reads_from (hclause : IsClause clause) {read rest front other : List Char}
    (hsplit : clause = read ++ rest) (hne : rest ≠ [])
    (h : rest ++ ' ' :: later = front ++ other) :
    ¬Reads (all [blanks, text "from", blanks]) front := by
  intro hreads
  obtain ⟨gap, _, rfl, hgap, hfrom⟩ := hreads.exists_all
  obtain ⟨_, gap', rfl, hword, hgap'⟩ := hfrom.exists_all
  obtain ⟨d, gap', rfl, hd⟩ := hgap'.exists_first rfl
  obtain ⟨hlength, hblank⟩ := hgap.of_rounds_set
  rw [List.append_assoc] at h
  rcases List.append_eq_append_iff.mp h with ⟨more, hcover, _⟩ | ⟨more, rfl, hmore⟩
  · have hmem := List.getLast_mem hne
    have hlast := hclause.last (rest.getLast hne) (by
      rw [hsplit, List.getLast?_append_of_ne_nil _ hne, List.getLast?_eq_some_getLast hne]
      rfl)
    have hhas := hblank _ (hcover ▸ List.mem_append_left _ hmem)
    rw [CharClass.has, hlast] at hhas
    cases hhas
  · obtain ⟨begin, c, rfl⟩ := (List.eq_nil_or_concat gap).resolve_left
      (List.length_pos_iff.mp hlength)
    have hprefix : "from".toList ++ [d] <+: more ++ ' ' :: later :=
      ⟨gap' ++ other, by rw [← hmore, hword.eq_chars]; simp⟩
    obtain ⟨behind, hbehind⟩ := prefix_concat hprefix (by decide)
    refine hclause.noFrom c d (hblank c (by simp)) hd ⟨read ++ begin, behind, ?_⟩
    rw [hsplit]
    simp [← hbehind]

-- What stands behind the word of an import.
private theorem takes_clause (hclause : IsClause clause) (hmark : isQuote mark = true)
    (hname : IsQuotable name) :
    (seq (maybe (all [group 2 (plusLazy (.set clauseChars)), blanks, text "from", blanks]))
      (seq (moduleName 3) statementEnd)).Takes spot
        (clause ++ ' ' :: ("from".toList ++ ' ' :: mark :: (name ++ [mark, ';']))) later
        [(3, name), (2, clause)] := by
  have hfrom {spot : Spot} : (all [blanks, text "from", blanks]).Takes spot
      ([' '] ++ ("from".toList ++ [' '])) (mark :: (name ++ [mark, ';']) ++ later) [] := by
    refine (takes_blank (by simp; decide)).seq ((takes_text "from").seq (takes_blank fun c hc => ?_))
    obtain rfl : mark = c := Option.some.inj hc
    by_contra hblank
    rw [isQuote_of_isBlank (by simpa using hblank)] at hmark
    cases hmark
  have hbody : (all [group 2 (plusLazy (.set clauseChars)), blanks, text "from", blanks]).Takes spot
      (clause ++ ([' '] ++ ("from".toList ++ [' ']))) (mark :: (name ++ [mark, ';']) ++ later)
      [(2, clause)] :=
    Takes.lazy 2 hclause.nonempty hclause.chars hfrom fun read rest front other hsplit _ hne h =>
      not_reads_from hclause hsplit hne (by simpa using h)
  have hend {spot : Spot} : statementEnd.Takes spot [';'] later [] := takes_statementEnd
  have hmodule {spot : Spot} : (seq (moduleName 3) statementEnd).Takes spot
      (mark :: (name ++ [mark, ';'])) later [(3, name)] := by
    simpa using (takes_moduleName 3 hmark hname).seq hend
  simpa using hbody.maybe.seq hmodule

theorem takes_importStatement (hline : ∀ c ∈ spot.last, c = '\n') (hclause : IsClause clause)
    (hmark : isQuote mark = true) (hname : IsQuotable name) :
    importStatement.Takes spot (importText clause mark name) later [(3, name), (2, clause)] := by
  have hstart : lineStart.Takes spot [] (importText clause mark name ++ later) [] :=
    takes_assert fun _ => by simpa [Assertion.holds, Option.all_eq_true] using hline
  have hindent {spot : Spot} : indent.Takes spot [] (importText clause mark name ++ later) [] :=
    takes_star (by simp) fun c hc => by
      obtain rfl : 'i' = c := Option.some.inj hc
      decide
  have hbody {spot : Spot} : (all [blanks, maybe (group 1 (seq (text "type") blanks)),
      maybe (all [group 2 (plusLazy (.set clauseChars)), blanks, text "from", blanks]), moduleName 3,
      statementEnd]).Takes spot ([' '] ++ ([] ++
        (clause ++ ' ' :: ("from".toList ++ ' ' :: mark :: (name ++ [mark, ';']))))) later
        [(3, name), (2, clause)] := by
    refine (takes_blank fun c hc => ?_).seq ((takes_maybe_nil fun front other h => ?_).seq
      (takes_clause hclause hmark hname))
    · rw [List.nil_append, List.append_assoc,
        List.head?_append_of_ne_nil _ hclause.nonempty] at hc
      exact hclause.head c hc
    · exact not_reads_type hclause (by simpa using h)
  have hwhole : importText clause mark name = [] ++ ([] ++ ("import".toList ++ ([' '] ++ ([] ++
      (clause ++ ' ' :: ("from".toList ++ ' ' :: mark :: (name ++ [mark, ';']))))))) := rfl
  rw [hwhole]
  exact hstart.seq (hindent.seq ((takes_text "import").seq hbody))

end Import

end LivePreview.Script.Form
