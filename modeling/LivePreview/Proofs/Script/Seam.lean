import LivePreview.Proofs.Script.Issues
import Mathlib.Data.List.TakeWhile

namespace LivePreview.Script

-- The text is at the end of a line, and a string that is open in it does not go on behind the line.
structure EndsLine (front : List Char) : Prop where
  line : front.getLast? = some '\n'
  plain : ¬['\\', '\n'] <:+ front

theorem EndsLine.of_suffix {front part : List Char} (h : EndsLine front) (hpart : part <:+ front)
    (hne : part ≠ []) : EndsLine part := by
  obtain ⟨behind, rfl⟩ := hpart
  exact ⟨List.getLast?_append_of_ne_nil behind hne ▸ h.line,
    fun hend => h.plain (hend.trans (List.suffix_append _ _))⟩

-- The places of a text that holds `old` and of the one that holds `new` in its stead, before the
-- lines of these parts and behind them.
inductive Joins (old new later : List Char) : List Char → List Char → Prop
  | same (text : List Char) : Joins old new later text text
  | before (front : List Char) (h : EndsLine front) :
      Joins old new later (front ++ (old ++ later)) (front ++ (new ++ later))

-- The places before the parts, at the parts and behind them.
def Meets (old new later first second : List Char) : Prop :=
  Joins old new later first second ∨ first = old ++ later ∧ second = new ++ later

-- A part that begins with a word and holds no mark that ends a literal, a comment or a tag.
structure IsCalm (part : List Char) : Prop where
  head : part.head? = some 'i'
  chars : ∀ c ∈ part, c ∉ ['"', '\'', '*', '>']

section Texts

variable {old new later first second rest : List Char} {c : Char}

theorem Joins.meets (h : Joins old new later first second) : Meets old new later first second :=
  .inl h

theorem Joins.eq_nil (h : Joins old new later [] second) : second = [] := by
  generalize hfirst : [] = first at h
  cases h with
  | same => rfl
  | before front h =>
      obtain ⟨rfl, _⟩ := List.append_eq_nil_iff.mp hfirst.symm
      cases h.line

-- One character further both are at a place again, the parts standing at the start of a line.
theorem Joins.exists_cons (h : Joins old new later (c :: rest) second) :
    ∃ rest', second = c :: rest' ∧ Meets old new later rest rest' ∧
      (c ≠ '\n' → Joins old new later rest rest') := by
  generalize hfirst : c :: rest = first at h
  cases h with
  | same =>
      subst hfirst
      exact ⟨rest, rfl, .inl (.same _), fun _ => .same _⟩
  | before front h =>
      cases front with
      | nil => cases h.line
      | cons d front =>
          obtain ⟨rfl, rfl⟩ := List.cons.inj hfirst
          by_cases hfront : front = []
          · subst hfront
            obtain rfl := Option.some.inj h.line
            exact ⟨_, rfl, .inr ⟨rfl, rfl⟩, fun hc => absurd rfl hc⟩
          · have hends := h.of_suffix (List.suffix_cons _ _) hfront
            exact ⟨_, rfl, .inl (.before front hends), fun _ => .before front hends⟩

-- Behind a backslash and one more character neither is at the parts.
theorem Joins.exists_escaped (h : Joins old new later ('\\' :: rest) second) :
    ∃ rest', second = '\\' :: rest' ∧ Joins old new later rest.tail rest'.tail := by
  generalize hfirst : '\\' :: rest = first at h
  cases h with
  | same =>
      subst hfirst
      exact ⟨rest, rfl, .same _⟩
  | before front h =>
      match front with
      | [] => cases h.line
      | [c] =>
          obtain ⟨rfl, _⟩ := List.cons.inj hfirst
          cases h.line
      | c :: d :: front =>
          obtain ⟨rfl, rfl⟩ := List.cons.inj hfirst
          by_cases hfront : front = []
          · subst hfront
            obtain rfl := Option.some.inj h.line
            exact absurd (List.suffix_refl _) h.plain
          · exact ⟨_, rfl, .before front (h.of_suffix ⟨['\\', d], rfl⟩ hfront)⟩

private theorem dropWhile_front (test : Char → Bool) (front text : List Char) :
    (front ++ text).dropWhile test =
      if front.dropWhile test = [] then text.dropWhile test else front.dropWhile test ++ text := by
  simp only [List.dropWhile_append, List.isEmpty_iff]

-- What stops at the end of a line stops before the parts.
theorem Joins.skipWhile (h : Joins old new later first second) (test : Char → Bool)
    (htest : test '\n' = false) :
    Joins old new later (first.dropWhile test) (second.dropWhile test) ∧
      first.takeWhile test = second.takeWhile test := by
  cases h with
  | same => exact ⟨.same _, rfl⟩
  | before front h =>
      have hne : front.dropWhile test ≠ [] := by
        intro hnil
        have hall := List.dropWhile_eq_nil_iff.mp hnil '\n' (List.mem_of_getLast? h.line)
        rw [htest] at hall
        cases hall
      have htake : ∀ text, (front ++ text).takeWhile test = front.takeWhile test := by
        intro text
        rw [List.takeWhile_append, if_neg]
        intro hlength
        have hparts := congrArg List.length (List.takeWhile_append_dropWhile (p := test) (l := front))
        rw [List.length_append] at hparts
        exact hne (List.length_eq_zero_iff.mp (by omega))
      rw [dropWhile_front _ front, dropWhile_front _ front, if_neg hne, if_neg hne, htake, htake]
      exact ⟨.before _ (h.of_suffix (List.dropWhile_suffix test) hne), rfl⟩

-- What stops at a character that the parts do not hold passes over them.
theorem Joins.skipTo (h : Joins old new later first second) (hold : c ∉ old) (hnew : c ∉ new) :
    Joins old new later (first.dropWhile (· != c)) (second.dropWhile (· != c)) := by
  cases h with
  | same => exact .same _
  | before front h =>
      have hpass : ∀ part : List Char, c ∉ part →
          (part ++ later).dropWhile (· != c) = later.dropWhile (· != c) := by
        intro part hpart
        refine List.dropWhile_append_of_pos fun d hd => ?_
        exact bne_iff_ne.mpr fun heq => hpart (heq ▸ hd)
      rw [dropWhile_front _ front, dropWhile_front _ front, hpass old hold, hpass new hnew]
      split
      · exact .same _
      · rename_i hne
        exact .before _ (h.of_suffix (List.dropWhile_suffix _) hne)

theorem Meets.head?_eq (hold : IsCalm old) (hnew : IsCalm new)
    (h : Meets old new later first second) : first.head? = second.head? := by
  have hhead : ∀ {part : List Char}, IsCalm part → (part ++ later).head? = some 'i' := by
    intro part hpart
    rw [List.head?_append, hpart.head]
    rfl
  rcases h with h | ⟨rfl, rfl⟩
  · cases h with
    | same => rfl
    | before front h =>
        simp only [List.head?_append (l := front), hhead hold, hhead hnew]
  · rw [hhead hold, hhead hnew]

theorem Meets.skipBlanks (hold : IsCalm old) (hnew : IsCalm new)
    (h : Meets old new later first second) :
    Meets old new later (first.dropWhile Text.isBlank) (second.dropWhile Text.isBlank) := by
  have hstay : ∀ {part : List Char}, IsCalm part →
      (part ++ later).dropWhile Text.isBlank = part ++ later := by
    intro part hpart
    cases part with
    | nil => cases hpart.head
    | cons c part =>
        obtain rfl := Option.some.inj hpart.head
        exact List.dropWhile_cons_of_neg (by decide)
  rcases h with h | ⟨rfl, rfl⟩
  · cases h with
    | same => exact .inl (.same _)
    | before front h =>
        rw [dropWhile_front _ front, dropWhile_front _ front, hstay hold, hstay hnew]
        split
        · exact .inr ⟨rfl, rfl⟩
        · rename_i hne
          exact .inl (.before _ (h.of_suffix (List.dropWhile_suffix _) hne))
  · rw [hstay hold, hstay hnew]
    exact .inr ⟨rfl, rfl⟩

-- Behind a mark that does not open the parts both are at a place again.
theorem Meets.exists_tail (hold : IsCalm old) (h : Meets old new later first second)
    (hhead : first.head? = some c) (hc : c ≠ 'i') :
    ∃ rest rest', first = c :: rest ∧ second = c :: rest' ∧ Meets old new later rest rest' ∧
      (c ≠ '\n' → Joins old new later rest rest') := by
  rcases h with h | ⟨rfl, _⟩
  · obtain rest := first.tail
    have hfirst := List.eq_cons_of_mem_head? hhead
    rw [hfirst] at h
    obtain ⟨rest', hsecond, hrest⟩ := h.exists_cons
    exact ⟨_, rest', hfirst, hsecond, hrest⟩
  · rw [List.head?_append, hold.head] at hhead
    exact absurd (Option.some.inj hhead).symm hc

end Texts

section Literals

variable {old new later first second : List Char}

theorem Joins.stringEnd (quote : Char) (h : Joins old new later first second) :
    Option.Rel (Joins old new later) (stringEnd quote first) (stringEnd quote second) := by
  induction hlength : first.length using Nat.strongRecOn generalizing first second with
  | _ limit ih =>
      subst hlength
      cases first with
      | nil =>
          obtain rfl := h.eq_nil
          exact .none
      | cons c rest =>
          obtain ⟨rest', rfl, _, hrest⟩ := h.exists_cons
          rw [stringEnd_cons, stringEnd_cons]
          split
          · exact .none
          rename_i hline
          split
          · rename_i hc
            subst hc
            obtain ⟨other, heq, htail⟩ := h.exists_escaped
            obtain rfl := (List.cons.inj heq).2
            exact ih _ (by rw [List.length_cons, List.length_tail]; omega) htail rfl
          split
          · exact .some (hrest hline)
          · exact ih _ (Nat.lt_succ_self _) (hrest hline) rfl

theorem not_inName_newline : inName '\n' = false := by decide

theorem Joins.regexEnd (inClass : Bool) (h : Joins old new later first second) :
    Option.Rel (Joins old new later) (regexEnd inClass first) (regexEnd inClass second) := by
  induction hlength : first.length using Nat.strongRecOn generalizing first second inClass with
  | _ limit ih =>
      subst hlength
      cases first with
      | nil =>
          obtain rfl := h.eq_nil
          exact .none
      | cons c rest =>
          obtain ⟨rest', rfl, _, hrest⟩ := h.exists_cons
          rw [regexEnd_cons, regexEnd_cons]
          split
          · exact .none
          rename_i hline
          split
          · rename_i hc
            subst hc
            obtain ⟨other, heq, htail⟩ := h.exists_escaped
            obtain rfl := (List.cons.inj heq).2
            exact ih _ (by rw [List.length_cons, List.length_tail]; omega) _ htail rfl
          split
          · exact .some ((hrest hline).skipWhile inName not_inName_newline).1
          · exact ih _ (Nat.lt_succ_self _) _ (hrest hline) rfl

theorem commentEnd_append {part : List Char} (h : '*' ∉ part) :
    commentEnd (part ++ later) = commentEnd later := by
  induction part with
  | nil => rfl
  | cons c part ih =>
      rw [List.mem_cons, not_or] at h
      have hc : ¬(c = '*' ∧ (part ++ later).head? = some '/') := fun hstar => h.1 hstar.1.symm
      rw [List.cons_append, commentEnd, if_neg hc, ih h.2]

theorem Meets.commentEnd (hold : IsCalm old) (hnew : IsCalm new)
    (h : Meets old new later first second) :
    Option.Rel (Meets old new later) (commentEnd first) (commentEnd second) := by
  have hseam : Option.Rel (Meets old new later) (Script.commentEnd (old ++ later))
      (Script.commentEnd (new ++ later)) := by
    rw [commentEnd_append fun hstar => hold.chars _ hstar (by simp),
      commentEnd_append fun hstar => hnew.chars _ hstar (by simp)]
    cases Script.commentEnd later with
    | none => exact .none
    | some text => exact .some (.inl (.same text))
  induction first generalizing second with
  | nil =>
      rcases h with h | ⟨hfirst, rfl⟩
      · obtain rfl := h.eq_nil
        exact .none
      · rw [hfirst]
        exact hseam
  | cons c rest ih =>
      rcases h with h | ⟨hfirst, rfl⟩
      · obtain ⟨rest', rfl, hrest, _⟩ := h.exists_cons
        rw [Script.commentEnd, Script.commentEnd, ← hrest.head?_eq hold hnew]
        split
        · rename_i hclose
          obtain ⟨_, _, rfl, rfl, htail, _⟩ := hrest.exists_tail hold hclose.2 (by decide)
          exact .some htail
        · exact ih hrest
      · rw [hfirst]
        exact hseam

end Literals

end LivePreview.Script
