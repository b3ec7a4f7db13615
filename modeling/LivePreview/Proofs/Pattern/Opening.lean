import LivePreview.Proofs.Pattern.Places

namespace LivePreview

-- The characters of a class that lists them.
def CharClass.members? : CharClass → Option (List Char)
  | none => some []
  | one c => some [c]
  | union first second => first.members?.bind fun chars => second.members?.map (chars ++ ·)
  | _ => Option.none

theorem CharClass.mem_of_members? {set : CharClass} {chars : List Char} {c : Char}
    (h : set.members? = some chars) (hc : set.has c = true) : c ∈ chars := by
  induction set generalizing chars with
  | none => cases hc
  | one d =>
      obtain rfl := Option.some.inj h
      simpa [has] using hc
  | union first second ihfirst ihsecond =>
      obtain ⟨front, hfront, h⟩ := Option.bind_eq_some_iff.mp h
      obtain ⟨back, hback, rfl⟩ := Option.map_eq_some_iff.mp h
      rw [has, Bool.or_eq_true] at hc
      exact List.mem_append.mpr (hc.imp (ihfirst hfront) (ihsecond hback))
  | _ => cases h

namespace Pattern

-- The characters with which a text that the pattern reads may begin.
def firsts : Pattern → CharClass
  | empty => .none
  | set chars => chars
  | assert _ => .none
  | seq first second => if first.nullable then .union first.firsts second.firsts else first.firsts
  | alt first second => .union first.firsts second.firsts
  | rounds body _ _ _ => body.firsts
  | group _ body => body.firsts

theorem Reads.nullable {pattern : Pattern} (h : Reads pattern []) : pattern.nullable = true := by
  generalize htext : ([] : List Char) = text at h
  induction h with
  | empty => rfl
  | set => cases htext
  | assert => rfl
  | seq _ _ ihfirst ihsecond =>
      obtain ⟨hfirst, hsecond⟩ := List.append_eq_nil_iff.mp htext.symm
      simp [Pattern.nullable, ihfirst hfirst.symm, ihsecond hsecond.symm]
  | left _ ih => simp [Pattern.nullable, ih htext]
  | right _ ih => simp [Pattern.nullable, ih htext]
  | @rounds body least _ _ texts hleast _ _ ih =>
      cases texts with
      | nil =>
          obtain rfl := Nat.le_zero.mp hleast
          rfl
      | cons text texts =>
          obtain ⟨hfirst, _⟩ := List.append_eq_nil_iff.mp htext.symm
          simp [Pattern.nullable, ih text List.mem_cons_self hfirst.symm]
  | group _ ih => exact ih htext

-- What several texts make together begins with the beginning of one of them.
private theorem exists_mem_of_flatten_eq_cons {c : Char} {later : List Char}
    {texts : List (List Char)} (h : texts.flatten = c :: later) :
    ∃ text ∈ texts, ∃ rest, c :: rest = text := by
  induction texts with
  | nil => cases h
  | cons text texts ih =>
      cases text with
      | nil =>
          obtain ⟨text, hmem, hrest⟩ := ih h
          exact ⟨text, List.mem_cons_of_mem _ hmem, hrest⟩
      | cons d text =>
          obtain ⟨rfl, _⟩ := List.cons.inj h
          exact ⟨_, List.mem_cons_self, text, rfl⟩

theorem Reads.firsts_has {pattern : Pattern} {c : Char} {later : List Char}
    (h : Reads pattern (c :: later)) : pattern.firsts.has c = true := by
  generalize htext : c :: later = text at h
  induction h generalizing later with
  | empty => cases htext
  | set hc =>
      obtain ⟨rfl, _⟩ := List.cons.inj htext
      exact hc
  | assert => cases htext
  | @seq first second text behind hfirst _ ihfirst ihsecond =>
      rw [firsts]
      cases text with
      | nil =>
          rw [if_pos hfirst.nullable, CharClass.has, ihsecond htext, Bool.or_true]
      | cons d text =>
          obtain ⟨rfl, _⟩ := List.cons.inj htext
          have hd := ihfirst rfl
          split
          · rw [CharClass.has, hd, Bool.true_or]
          · exact hd
  | left _ ih => rw [firsts, CharClass.has, ih htext, Bool.true_or]
  | right _ ih => rw [firsts, CharClass.has, ih htext, Bool.or_true]
  | @rounds body _ _ _ texts _ _ _ ih =>
      obtain ⟨text, hmem, rest, rfl⟩ := exists_mem_of_flatten_eq_cons htext.symm
      exact ih _ hmem rfl
  | group _ ih => exact ih htext

theorem Reads.exists_first {pattern : Pattern} {text : List Char} (h : Reads pattern text)
    (hnullable : pattern.nullable = false) :
    ∃ c later, text = c :: later ∧ pattern.firsts.has c = true := by
  cases text with
  | nil =>
      rw [h.nullable] at hnullable
      cases hnullable
  | cons c later => exact ⟨c, later, rfl, h.firsts_has⟩

variable {pattern : Pattern}

-- Whatever the pattern reads begins, behind an indent, with the word and a character of the class.
def Opens (pattern : Pattern) (word : List Char) (chars : CharClass) : Prop :=
  ∀ text, Reads pattern text → ∃ indent c later, text = indent ++ word ++ c :: later ∧
    (∀ d ∈ indent, d ≠ '\n') ∧ chars.has c = true

theorem Opens.calm {word text : List Char} {chars : CharClass} (h : pattern.Opens word chars)
    (hword : '\n' ∉ word)
    (htext : ∀ c, chars.has c = true → ¬ word ++ [c] <:+: text ++ ['\n']) : pattern.Calm text := by
  rintro spot read rest later rfl hrest hlater _
  refine matchAt_eq_none fun front other hfront hreads => ?_
  obtain ⟨indent, c, behind, rfl, hindent, hc⟩ := h front hreads
  have hsame : (indent ++ word) ++ c :: (behind ++ other) = rest ++ later := by
    rw [← hrest, hfront]
    simp
  -- The word ends within the text, since neither it nor the indent holds a line break.
  obtain ⟨more, hmore⟩ : ∃ more, rest ++ ['\n'] = indent ++ word ++ c :: more := by
    rcases List.append_eq_append_iff.mp hsame with ⟨more, rfl, hbehind⟩ | ⟨more, hmore, hbehind⟩
    · cases more with
      | nil =>
          obtain rfl : c = '\n' := hlater c (by rw [← List.nil_append later, ← hbehind]; rfl)
          exact ⟨[], by simp⟩
      | cons d more => exact ⟨more ++ ['\n'], by simp [(List.cons.inj hbehind).1]⟩
    · cases more with
      | nil =>
          obtain rfl : c = '\n' := hlater c (by rw [hbehind]; rfl)
          exact ⟨[], by simp [hmore]⟩
      | cons d more =>
          obtain rfl : d = '\n' := hlater d (by rw [hbehind]; rfl)
          have hbreak : '\n' ∈ indent ++ word := hmore ▸ by simp
          rcases List.mem_append.mp hbreak with hbreak | hbreak
          · exact absurd rfl (hindent _ hbreak)
          · exact absurd hbreak hword
  refine htext c hc ⟨read ++ indent, more, ?_⟩
  rw [List.append_assoc read rest, hmore]
  simp

section All

variable {first : Pattern} {more : List Pattern} {text : List Char}

theorem Reads.exists_all (h : Reads (all (first :: more)) text) :
    ∃ front back, text = front ++ back ∧ Reads first front ∧ Reads (all more) back := by
  cases more with
  | nil => exact ⟨text, [], by simp, h, .empty⟩
  | cons second more => exact Reads.exists_seq h

theorem Opens.of_assert {condition : Assertion} {word : List Char} {chars : CharClass}
    (h : (all more).Opens word chars) : (all (assert condition :: more)).Opens word chars := by
  intro text hreads
  obtain ⟨front, back, rfl, hfront, hback⟩ := hreads.exists_all
  rw [hfront.eq_assert]
  exact h back hback

theorem Opens.of_indent {spaces : CharClass} {word : List Char} {chars : CharClass}
    (hspaces : spaces.has '\n' = false) (h : (all more).Opens word chars) :
    (all (star (set spaces) :: more)).Opens word chars := by
  intro text hreads
  obtain ⟨front, back, rfl, hfront, hback⟩ := hreads.exists_all
  obtain ⟨_, hall⟩ := hfront.of_rounds_set
  obtain ⟨indent, c, later, rfl, hindent, hc⟩ := h back hback
  refine ⟨front ++ indent, c, later, by simp, fun d hd => ?_, hc⟩
  rcases List.mem_append.mp hd with hd | hd
  · rintro rfl
    rw [hall _ hd] at hspaces
    cases hspaces
  · exact hindent d hd

theorem Opens.of_group {index : Nat} {word : List Char} {chars : CharClass}
    (h : (all (first :: more)).Opens word chars) :
    (all (group index first :: more)).Opens word chars := by
  intro text hreads
  obtain ⟨front, back, rfl, hfront, hback⟩ := hreads.exists_all
  refine h _ ?_
  cases more with
  | nil =>
      cases hback
      rw [List.append_nil]
      exact hfront.of_group
  | cons second more => exact .seq hfront.of_group hback

theorem Opens.of_first {word : List Char} {chars : CharClass} (h : first.Opens word chars) :
    (all (first :: more)).Opens word chars := by
  intro text hreads
  obtain ⟨front, back, rfl, hfront, _⟩ := hreads.exists_all
  obtain ⟨indent, c, later, rfl, hindent, hc⟩ := h front hfront
  exact ⟨indent, c, later ++ back, by simp, hindent, hc⟩

-- A word, and a pattern behind it that reads something.
theorem opens_word (word : String) {next : Pattern} (h : next.nullable = false) :
    (all (Pattern.text word :: next :: more)).Opens word.toList next.firsts := by
  intro text hreads
  obtain ⟨front, back, rfl, hfront, hback⟩ := hreads.exists_all
  obtain ⟨run, later, rfl, hrun, _⟩ := hback.exists_all
  obtain ⟨c, run, rfl, hc⟩ := hrun.exists_first h
  refine ⟨[], c, run ++ later, ?_, by simp, hc⟩
  rw [hfront.eq_chars]
  simp

end All

end Pattern

end LivePreview
