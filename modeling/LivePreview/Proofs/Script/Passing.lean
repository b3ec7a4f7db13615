import LivePreview.Proofs.Script.Binding
import LivePreview.Proofs.Script.Parallel
import Mathlib.Data.List.DropRight

namespace LivePreview.Script

open Text (Cursor)
open Scan

-- A character of a name in a clause or of what stands between names.
def inClause (c : Char) : Bool := inName c || Text.isBlank c || c == ','

-- The text in front of the braces of a clause, and the one within them, are flat.
def IsFlat (text : List Char) : Prop := ∀ c ∈ text, inClause c = true

instance (text : List Char) : Decidable (IsFlat text) :=
  inferInstanceAs (Decidable (∀ c ∈ text, inClause c = true))

theorem ne_of_inClause {c d : Char} (h : inClause c = true) (hd : inClause d = false) : c ≠ d := by
  rintro rfl
  rw [h] at hd
  cases hd

theorem IsFlat.append {first second : List Char} (h : IsFlat first) (h' : IsFlat second) :
    IsFlat (first ++ second) := by
  intro c hc
  rcases List.mem_append.mp hc with hc | hc
  · exact h c hc
  · exact h' c hc

theorem not_inName_of_getLast? {text : List Char} {d : Char} (hlast : text.getLast? = some d)
    (hd : inName d = false) : ∀ c ∈ text.getLast?, inName c = false := by
  intro c hc
  obtain rfl : d = c := Option.some.inj (hlast.symm.trans hc)
  exact hd

-- The reader comes through the text to what is behind it, the brackets being open that are, if there
-- are as many as the bound says.
def Through {α : Type} (read : Scan → α) (bound : Option Nat) (text later : List Char) : Prop :=
  ∀ s : Scan, s.rest = text ++ later → (∀ depth ∈ bound, depth ≤ s.openings.length) →
    ∃ t : Scan, read s = read t ∧ t.rest = later ∧ t.openings = s.openings

theorem Through.append {α : Type} {read : Scan → α} {bound : Option Nat}
    {first second later : List Char} (h : Through read bound first (second ++ later))
    (h' : Through read bound second later) : Through read bound (first ++ second) later := by
  intro s hs hbound
  rw [List.append_assoc] at hs
  obtain ⟨t, ht, hrest, hopenings⟩ := h s hs hbound
  obtain ⟨u, hu, hrest', hopenings'⟩ := h' t hrest (by rwa [hopenings])
  exact ⟨u, ht.trans hu, hrest', hopenings'.trans hopenings⟩

theorem Through.nil {α : Type} (read : Scan → α) (bound : Option Nat) (later : List Char) :
    Through read bound [] later :=
  fun s hs _ => ⟨s, rfl, hs, rfl⟩

section Code

variable {base : Option Nat} {s : Scan} {c : Char} {rest text later : List Char}

theorem codeMove_inClause (base : Option Nat) (s : Scan) (rest : List Char)
    (hc : inClause c = true) :
    codeMove base s (c :: rest) =
      if inName c then .on { s.moveTo (s.toCursor.skipWhile inName) with
        last := some (.word (s.rest.takeWhile inName)) }
      else .on (s.step c rest) := by
  have hne : ∀ d, inClause d = false → c ≠ d := fun d => ne_of_inClause hc
  have hslash := hne '/' (by decide)
  have hdouble := hne '"' (by decide)
  have hsingle := hne '\'' (by decide)
  have htick := hne '`' (by decide)
  have hless := hne '<' (by decide)
  have hround := hne '(' (by decide)
  have hround' := hne ')' (by decide)
  have hsquare := hne '[' (by decide)
  have hsquare' := hne ']' (by decide)
  have hbrace := hne '\x7b' (by decide)
  have hbrace' := hne '\x7d' (by decide)
  simp [codeMove, tokenMove, bracketMove, *]

-- A word at the end of the text does not go on behind it.
def EndsWord (text later : List Char) : Prop :=
  ∀ c ∈ text.getLast?, inName c = true → ∀ d ∈ later.head?, inName d = false

theorem EndsWord.of_cons (h : EndsWord (c :: text) later) : EndsWord text later := by
  cases text with
  | nil => exact nofun
  | cons d text => exact h

theorem EndsWord.of_suffix (h : EndsWord text later) {part : List Char} (hpart : part <:+ text) :
    EndsWord part later := by
  obtain ⟨front, rfl⟩ := hpart
  induction front with
  | nil => exact h
  | cons c front ih => exact ih h.of_cons

theorem dropWhile_inName (h : EndsWord (c :: text) later) (hc : inName c = true) :
    (c :: text ++ later).dropWhile inName = text.dropWhile inName ++ later := by
  rw [List.cons_append, List.dropWhile_cons_of_pos hc, List.dropWhile_append]
  split
  · rename_i hnil
    have hnames : ∀ d ∈ c :: text, inName d = true := by
      rw [List.isEmpty_iff, List.dropWhile_eq_nil_iff] at hnil
      simpa [hc] using hnil
    have hlast := List.getLast?_eq_some_getLast (List.cons_ne_nil c text)
    have hhead := h _ hlast (hnames _ (List.getLast_mem _))
    rw [List.isEmpty_iff.mp hnil, List.nil_append]
    cases later with
    | nil => rfl
    | cons d later => exact List.dropWhile_cons_of_neg (by simp [hhead d rfl])
  · rfl

theorem through_code_flat (hflat : IsFlat text) (hends : EndsWord text later) :
    Through (readCode base) base text later := by
  induction hlength : text.length using Nat.strongRecOn generalizing text with
  | _ limit ih =>
      subst hlength
      cases text with
      | nil => exact .nil _ _ _
      | cons c text =>
          intro s hs hbound
          have hc := hflat c List.mem_cons_self
          have hmove : readCode base s =
              (codeMove base s (c :: (text ++ later))).resume (readCode base) := by
            rw [readCode_eq, hs]
            rfl
          rw [hmove, codeMove_inClause base s _ hc]
          split
          · rename_i hname
            have hrest : s.rest.dropWhile inName = text.dropWhile inName ++ later := by
              rw [hs]
              exact dropWhile_inName hends hname
            have hsuffix := List.dropWhile_suffix inName (l := text)
            exact ih _ (Nat.lt_succ_of_le hsuffix.length_le)
              (fun d hd => hflat d (List.mem_cons_of_mem _ (hsuffix.subset hd)))
              (hends.of_cons.of_suffix hsuffix) rfl
              { s.moveTo (s.toCursor.skipWhile inName) with
                last := some (.word (s.rest.takeWhile inName)) } hrest hbound
          · exact ih _ (Nat.lt_succ_self _) (fun d hd => hflat d (List.mem_cons_of_mem _ hd))
              hends.of_cons rfl (s.step c (text ++ later)) rfl hbound

-- Code in braces is read to the closing brace, where it ends if the bound says so.
theorem readCode_closing (base : Option Nat) (later : List Char) (hflat : IsFlat text)
    (hs : s.rest = text ++ '\x7d' :: later) {opening : Opening} {outer : List Opening}
    (hopenings : s.openings = opening :: outer) (hbrace : opening.bracket = '\x7b')
    (hbase : ∀ depth ∈ base, depth ≤ outer.length + 1) :
    ∃ t : Scan, t.rest = later ∧ t.openings = outer ∧
      readCode base s = if base.any (outer.length < ·) then .ok t else readCode base t := by
  have hname : inName '\x7d' = false := by decide
  have hends : EndsWord text ('\x7d' :: later) := by
    intro c _ _ d hd
    exact Option.some.inj hd ▸ hname
  obtain ⟨t, ht, hrest, hstill⟩ := through_code_flat hflat hends s hs (by simpa [hopenings])
  rw [hopenings] at hstill
  let u : Scan := ⟨⟨later, t.offset + 1⟩, outer, some (.punctuation '\x7d')⟩
  have hmove : codeMove base t ('\x7d' :: later) =
      if base.any (outer.length < ·) then .done (.ok u) else .on u := by
    simp [codeMove, tokenMove, bracketMove, hstill, hname, hbrace, closerOf, u]
  refine ⟨u, rfl, rfl, ?_⟩
  rw [ht, readCode_eq, hrest, hmove]
  split <;> rfl

def braced (text : List Char) : List Char := '\x7b' :: (text ++ ['\x7d'])

theorem through_code_braced (hflat : IsFlat text) :
    Through (readCode base) base (braced text) later := by
  intro s hs hbound
  have hname : inName '\x7b' = false := by decide
  have hs' : s.rest = '\x7b' :: (text ++ '\x7d' :: later) := by simpa [braced] using hs
  have hmove : readCode base s = readCode base (s.enter '\x7b' (text ++ '\x7d' :: later)) := by
    rw [readCode_eq, hs']
    simp [codeMove, tokenMove, bracketMove, hname, Move.resume]
  obtain ⟨t, hrest, hopenings, ht⟩ := readCode_closing base later hflat
    (s := s.enter '\x7b' (text ++ '\x7d' :: later)) rfl rfl rfl
    (fun depth hdepth => Nat.le_succ_of_le (hbound depth hdepth))
  have hopen : base.any (s.openings.length < ·) = false := by
    rw [Option.any_eq_false]
    intro depth hdepth
    simpa using hbound depth hdepth
  exact ⟨t, by rw [hmove, ht, hopen]; rfl, hrest, hopenings⟩

end Code

section Markup

variable {opened : Nat} {text later : List Char} {c : Char}

theorem through_template_char (hescape : c ≠ '\\') (htick : c ≠ '`')
    (hdollar : c = '$' → later.head? ≠ some '\x7b') :
    Through (readTemplate opened) none [c] later := by
  intro s hs _
  refine ⟨s.moveTo ⟨later, s.offset + c.utf8Size⟩, ?_, rfl, rfl⟩
  have hbrace : ¬(c = '$' ∧ later.head? = some '\x7b') := fun h => hdollar h.1 h.2
  rw [readTemplate_eq, hs, List.singleton_append, templateMove, if_neg hescape, if_neg htick,
    if_neg hbrace]
  rfl

theorem through_template_flat (hflat : IsFlat text)
    (hdollar : ∀ c ∈ text.getLast?, c = '$' → later.head? ≠ some '\x7b') :
    Through (readTemplate opened) none text later := by
  induction text with
  | nil => exact .nil _ _ _
  | cons c text ih =>
      have hc := hflat c List.mem_cons_self
      have hrest : Through (readTemplate opened) none text later := by
        refine ih (fun d hd => hflat d (List.mem_cons_of_mem _ hd)) fun d hd => ?_
        cases text with
        | nil => cases hd
        | cons e text => exact hdollar d hd
      change Through (readTemplate opened) none ([c] ++ text) later
      refine Through.append (through_template_char
        (ne_of_inClause hc (by decide)) (ne_of_inClause hc (by decide))
        fun hc => ?_) hrest
      cases text with
      | nil => exact hdollar c rfl hc
      | cons d text =>
          have hd := hflat d (by simp)
          simpa using ne_of_inClause hd (by decide)

theorem through_template_braced (hflat : IsFlat text) :
    Through (readTemplate opened) none (braced text) later := by
  have hopen : Through (readTemplate opened) none ['\x7b'] (text ++ ['\x7d'] ++ later) :=
    through_template_char (by decide) (by decide) (by simp)
  have hinner : Through (readTemplate opened) none text (['\x7d'] ++ later) :=
    through_template_flat hflat (by simp)
  have hclose : Through (readTemplate opened) none ['\x7d'] later :=
    through_template_char (by decide) (by decide) (by simp)
  exact hopen.append (hinner.append hclose)

theorem through_children_flat (hflat : IsFlat text) : Through readChildren none text later := by
  induction text with
  | nil => exact .nil _ _ _
  | cons c text ih =>
      have hc := hflat c List.mem_cons_self
      change Through readChildren none ([c] ++ text) later
      refine Through.append (fun s hs _ => ?_)
        (ih fun d hd => hflat d (List.mem_cons_of_mem _ hd))
      refine ⟨s.moveTo ⟨text ++ later, s.offset + c.utf8Size⟩, ?_, rfl, rfl⟩
      rw [readChildren_eq, hs, List.singleton_append, childrenMove,
        if_neg (ne_of_inClause hc (by decide)),
        if_neg (ne_of_inClause hc (by decide))]
      rfl

theorem bracesMove_flat (later : List Char) (hflat : IsFlat text) (s : Scan) :
    ∃ t : Scan, t.rest = later ∧ t.openings = s.openings ∧
      bracesMove s (text ++ '\x7d' :: later) = .on t := by
  obtain ⟨t, hrest, hopenings, ht⟩ := readCode_closing (some (s.openings.length + 1)) later
    (s := s.enter '\x7b' (text ++ '\x7d' :: later)) hflat rfl rfl rfl (by simp)
  refine ⟨t, hrest, hopenings, ?_⟩
  rw [bracesMove, ht, if_pos (by simp)]

theorem through_children_braced (hflat : IsFlat text) :
    Through readChildren none (braced text) later := by
  intro s hs _
  obtain ⟨t, hrest, hopenings, ht⟩ := bracesMove_flat later hflat s
  refine ⟨t, ?_, hrest, hopenings⟩
  have hs' : s.rest = '\x7b' :: (text ++ '\x7d' :: later) := by simpa [braced] using hs
  rw [readChildren_eq, hs', childrenMove, if_pos rfl, ht]
  rfl

end Markup

section Attributes

variable {text later : List Char}

-- No element comes of attributes that begin with the text.
def Stuck (text : List Char) : Prop :=
  ∀ s : Scan, s.rest = text → (attributesMove s s.rest).resume readAttributes = none

theorem readAttributes_eq_none {s : Scan} (h : Stuck (s.rest.dropWhile Text.isBlank)) :
    readAttributes s = none := by
  rw [readAttributes_eq]
  exact h _ rfl

theorem dropWhile_append_stop {test : Char → Bool} (h : ∀ c ∈ later.head?, test c = false) :
    (text ++ later).dropWhile test = text.dropWhile test ++ later := by
  rw [List.dropWhile_append]
  split
  · rename_i hnil
    rw [List.isEmpty_iff.mp hnil, List.nil_append]
    cases later with
    | nil => rfl
    | cons c later => exact List.dropWhile_cons_of_neg (by simp [h c rfl])
  · rfl

theorem stuck_quote {mark : Char} (hmark : mark = '"' ∨ mark = '\'') :
    Stuck (mark :: later) := by
  intro s hs
  have hname : opensName mark = false := by
    rcases hmark with rfl | rfl <;> decide
  rw [hs, attributesMove]
  extract_lets
  rcases hmark with rfl | rfl <;> simp [hname, Move.resume]

namespace Stuck

-- Behind names and what is between them there is no attribute if none is in the text that follows.
theorem flat (h : Stuck later) (hflat : IsFlat text)
    (hlater : ∀ c ∈ later.head?, Text.isBlank c = false ∧ inAttributeName c = false ∧ c ≠ '=') :
    Stuck ((text ++ later).dropWhile Text.isBlank) := by
  induction hlength : text.length using Nat.strongRecOn generalizing text with
  | _ limit ih =>
      subst hlength
      rw [dropWhile_append_stop fun c hc => (hlater c hc).1]
      have hsuffix := List.dropWhile_suffix Text.isBlank (l := text)
      generalize text.dropWhile Text.isBlank = front at hsuffix
      cases front with
      | nil => exact h
      | cons c front =>
          intro s hs
          have hc := hflat c (hsuffix.subset List.mem_cons_self)
          rw [hs, List.cons_append, attributesMove]
          extract_lets name sign value
          have hslash : ¬(c = '/' ∧ (front ++ later).head? = some '>') :=
            fun hclose => ne_of_inClause hc (by decide) hclose.1
          rw [if_neg hslash, if_neg (ne_of_inClause hc (by decide)),
            if_neg (ne_of_inClause hc (by decide))]
          split
          swap
          · rfl
          have hbehind : front.dropWhile inAttributeName <:+ text :=
            (List.dropWhile_suffix _).trans ((List.suffix_cons c front).trans hsuffix)
          have hflat' : IsFlat (front.dropWhile inAttributeName) :=
            fun d hd => hflat d (hbehind.subset hd)
          have hname : name.rest = front.dropWhile inAttributeName ++ later :=
            dropWhile_append_stop fun d hd => (hlater d hd).2.1
          have hsign : sign.rest =
              (front.dropWhile inAttributeName ++ later).dropWhile Text.isBlank := by
            rw [← hname]
            rfl
          have hequals : ¬sign.rest.head? = some '=' := by
            rw [hsign, dropWhile_append_stop fun d hd => (hlater d hd).1]
            intro hhead
            generalize hgap : (front.dropWhile inAttributeName).dropWhile Text.isBlank = gap at hhead
            cases gap with
            | nil => exact (hlater _ hhead).2.2 rfl
            | cons d gap =>
                have hd := hflat' d ((List.dropWhile_suffix _).subset (hgap ▸ List.mem_cons_self))
                exact ne_of_inClause hd (by decide) (Option.some.inj hhead)
          rw [if_neg hequals]
          have hshorter : (front.dropWhile inAttributeName).length < text.length :=
            Nat.lt_of_le_of_lt (List.dropWhile_suffix _).length_le hsuffix.length_le
          refine readAttributes_eq_none ?_
          rw [hsign, List.dropWhile_idempotent]
          exact ih _ hshorter hflat' rfl

theorem braced (h : Stuck (later.dropWhile Text.isBlank)) (hflat : IsFlat text) :
    Stuck (braced text ++ later) := by
  intro s hs
  obtain ⟨t, hrest, _, ht⟩ := bracesMove_flat later hflat s
  have hs' : s.rest = '\x7b' :: (text ++ '\x7d' :: later) := by
    simpa [Script.braced] using hs
  rw [hs', attributesMove]
  extract_lets
  rw [if_neg (by simp), if_neg (by decide), if_pos rfl, ht]
  exact readAttributes_eq_none (hrest ▸ h)

end Stuck

end Attributes

-- A clause of names, or of names in front of braces and within them. The braces stand apart from the
-- name in front of them.
inductive IsPlain : List Char → Prop
  | flat {text : List Char} (h : IsFlat text) : IsPlain text
  | braces {lead inner behind : List Char} (hlead : IsFlat lead) (hinner : IsFlat inner)
      (hbehind : IsFlat behind) (hapart : ∀ c ∈ lead.getLast?, inName c = false) :
      IsPlain (lead ++ (braced inner ++ behind))

-- The quoted part that a text begins with stands behind blanks.
def OpensQuote (text : List Char) : Prop :=
  ∃ gap mark rest, text = gap ++ mark :: rest ∧ ImportPatch.IsGap gap ∧ (mark = '"' ∨ mark = '\'')

theorem isFlat_of_blank {text : List Char} (h : ∀ c ∈ text, Text.isBlank c = true) :
    IsFlat text := by
  intro c hc
  simp [inClause, h c hc]

theorem OpensQuote.head {text : List Char} (h : OpensQuote text) :
    ∃ c rest, text = c :: rest ∧ Text.isBlank c = true := by
  obtain ⟨gap, mark, rest, rfl, hgap, _⟩ := h
  obtain ⟨c, gap, rfl⟩ := List.exists_cons_of_ne_nil hgap.nonempty
  exact ⟨c, _, rfl, hgap.blank c List.mem_cons_self⟩

namespace IsPlain

variable {text later behind : List Char}

theorem mem (h : IsPlain text) :
    ∀ c ∈ text, inClause c = true ∨ c = '\x7b' ∨ c = '\x7d' := by
  intro c hc
  cases h with
  | flat h => exact .inl (h c hc)
  | braces hlead hinner hbehind _ =>
      simp only [braced, List.mem_append, List.mem_cons, List.not_mem_nil, or_false] at hc
      rcases hc with hc | (rfl | hc | rfl) | hc
      · exact .inl (hlead c hc)
      · exact .inr (.inl rfl)
      · exact .inl (hinner c hc)
      · exact .inr (.inr rfl)
      · exact .inl (hbehind c hc)

theorem append_flat (h : IsPlain text) (hbehind : IsFlat behind) : IsPlain (text ++ behind) := by
  cases h with
  | flat h => exact .flat (h.append hbehind)
  | braces hlead hinner hlast hapart =>
      rw [List.append_assoc, List.append_assoc]
      exact .braces hlead hinner (hlast.append hbehind) hapart

theorem flat_append (h : IsPlain text) {front : List Char} (hfront : IsFlat front)
    (hapart : ∀ c ∈ front.getLast?, inName c = false) : IsPlain (front ++ text) := by
  cases h with
  | flat h => exact .flat (hfront.append h)
  | @braces lead inner behind hlead hinner hbehind hapart' =>
      rw [← List.append_assoc]
      refine .braces (hfront.append hlead) hinner hbehind fun c hc => ?_
      rw [List.getLast?_append, Option.mem_def, Option.or_eq_some_iff] at hc
      rcases hc with hc | ⟨_, hc⟩
      · exact hapart' c hc
      · exact hapart c hc

theorem through_code (h : IsPlain text) (hends : EndsWord text later) (base : Option Nat) :
    Through (readCode base) base text later := by
  cases h with
  | flat h => exact through_code_flat h hends
  | braces hlead hinner hbehind hapart =>
      refine (through_code_flat hlead fun c hc hname => ?_).append
        ((through_code_braced hinner).append
          (through_code_flat hbehind (hends.of_suffix ?_)))
      · rw [hapart c hc] at hname
        cases hname
      · exact (List.suffix_append _ _).trans (List.suffix_append _ _)

theorem through_template (h : IsPlain text) (hlater : later.head? ≠ some '\x7b') (opened : Nat) :
    Through (readTemplate opened) none text later := by
  cases h with
  | flat h => exact through_template_flat h fun _ _ _ => hlater
  | braces hlead hinner hbehind hapart =>
      refine (through_template_flat hlead fun c hc hdollar => ?_).append
        ((through_template_braced hinner).append
          (through_template_flat hbehind fun _ _ _ => hlater))
      have hname := hapart c hc
      rw [hdollar] at hname
      exact absurd hname (by decide)

theorem through_children (h : IsPlain text) : Through readChildren none text later := by
  cases h with
  | flat h => exact through_children_flat h
  | braces hlead hinner hbehind _ =>
      exact (through_children_flat hlead).append
        ((through_children_braced hinner).append (through_children_flat hbehind))

theorem stuck (h : IsPlain text) (hlater : OpensQuote later) :
    Stuck ((text ++ later).dropWhile Text.isBlank) := by
  obtain ⟨gap, mark, rest, rfl, hgap, hmark⟩ := hlater
  have hquote : ∀ c ∈ (mark :: rest).head?,
      Text.isBlank c = false ∧ inAttributeName c = false ∧ c ≠ '=' := by
    intro c hc
    obtain rfl : mark = c := Option.some.inj hc
    rcases hmark with rfl | rfl <;> decide
  have hflat : ∀ {front : List Char}, IsFlat front →
      Stuck ((front ++ (gap ++ mark :: rest)).dropWhile Text.isBlank) := by
    intro front hfront
    rw [← List.append_assoc]
    exact (stuck_quote hmark).flat (hfront.append (isFlat_of_blank hgap.blank)) hquote
  cases h with
  | flat h => exact hflat h
  | @braces lead inner behind hlead hinner hbehind _ =>
      have hbraced := (hflat hbehind).braced hinner
      rw [List.append_assoc, List.append_assoc]
      refine hbraced.flat hlead fun c hc => ?_
      obtain rfl : '\x7b' = c := Option.some.inj hc
      decide

end IsPlain

-- The readers pass over the front of an import, to the module that is quoted behind it.
theorem passes_import {front later : List Char} (hplain : IsPlain front)
    (hhead : front.head? = some 'i') (hlast : ∀ c ∈ front.getLast?, inName c = false)
    (hlater : OpensQuote later) : Passes (front ++ "from".toList) later := by
  have hnames : ∀ c ∈ "from".toList, inName c = true := by decide
  have hfrom : IsFlat "from".toList := fun c hc => by simp [inClause, hnames c hc]
  have hpart := hplain.append_flat hfrom
  have hfirst : (front ++ "from".toList).head? = some 'i' := by
    rw [List.head?_append, hhead]
    rfl
  obtain ⟨d, rest, rfl, hblank⟩ := hlater.head
  have hname := not_inName_of_isBlank hblank
  refine ⟨⟨hfirst, fun c hc => ?_⟩, ?_, ?_, ?_, ?_⟩
  · rcases hpart.mem c hc with hflat | rfl | rfl
    · have hne : ∀ d ∈ ['"', '\'', '*', '>'], inClause d = false := by decide
      exact fun hmem => ne_of_inClause hflat (hne c hmem) rfl
    · decide
    · decide
  · intro base s hs hbound
    have hends : EndsWord front ("from".toList ++ d :: rest) := by
      intro c hc hword
      rw [hlast c hc] at hword
      cases hword
    rw [List.append_assoc] at hs
    obtain ⟨t, ht, hrest, hopenings⟩ := hplain.through_code hends base s hs hbound
    let u : Scan := { t.moveTo (t.toCursor.skipWhile inName) with
      last := some (.word (t.rest.takeWhile inName)) }
    have hmove : readCode base t = readCode base u := by
      rw [readCode_eq, congrArg (codeMove base t) hrest]
      have hmove := codeMove_inClause base t ("rom".toList ++ d :: rest)
        (hfrom 'f' (by decide))
      rw [if_pos (hnames 'f' (by decide))] at hmove
      exact congrArg (Move.resume (readCode base)) hmove
    have hbehind : t.rest.dropWhile inName = d :: rest := by
      rw [hrest, List.dropWhile_append_of_pos hnames, List.dropWhile_cons_of_neg (by simp [hname])]
    have hword : t.rest.takeWhile inName = "from".toList := by
      rw [hrest, List.takeWhile_append_of_pos hnames, List.takeWhile_cons_of_neg (by simp [hname]),
        List.append_nil]
    exact ⟨u, ht.trans hmove, hbehind, hopenings, congrArg (fun word => some (Token.word word)) hword⟩
  · intro opened s hs
    have hbrace : (d :: rest).head? ≠ some '\x7b' := by
      rintro hd
      obtain rfl := Option.some.inj hd
      exact absurd hblank (by decide)
    exact hpart.through_template hbrace opened s hs nofun
  · have hstuck := hpart.stuck hlater
    rwa [List.eq_cons_of_mem_head? hfirst, List.cons_append,
      List.dropWhile_cons_of_neg (by decide), ← List.cons_append,
      ← List.eq_cons_of_mem_head? hfirst] at hstuck
  · intro s hs
    exact hpart.through_children s hs nofun

end LivePreview.Script
