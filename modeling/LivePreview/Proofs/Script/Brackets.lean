import LivePreview.Proofs.Script.Issues
import LivePreview.Proofs.Script.Moves
import Mathlib.Data.List.Forall2
import Mathlib.Data.List.TakeWhile

namespace LivePreview.Script

open Text (Cursor)
open Scan

-- The plain reading of a text that knows of brackets and of strings in double quotation marks.

inductive Mode where
  | plain
  | string
  | escape
deriving DecidableEq

def openers : List Char := ['(', '[', '\x7b']

def closers : List Char := [')', ']', '\x7d']

-- The mode behind a character of a string.
def Mode.inString (c : Char) : Mode :=
  if c = '\\' then .escape else if c = '"' then .plain else .string

-- The first fault of a text and the byte offset at which it shows. The last string has opened at
-- `opened`, and `pending` has the brackets that are open, with their lines, the innermost first.
def firstFault (mode : Mode) (opened : Nat) (pending : List (Char × Nat)) (offset line : Nat) :
    List Char → Option (String × Nat)
  | [] =>
    match mode, pending with
    | .plain, [] => none
    | .plain, (bracket, row) :: _ =>
      some (s!"Unexpected end of file: \"{bracket}\" opened on line {row} is never closed", offset)
    | _, _ => some ("Unterminated string literal", opened)
  | c :: text =>
    let offset' := offset + c.utf8Size
    let line' := if c = '\n' then line + 1 else line
    match mode with
    | .escape => firstFault .string opened pending offset' line' text
    | .string =>
      if c = '\n' then some ("Unterminated string literal", opened)
      else firstFault (.inString c) opened pending offset' line' text
    | .plain =>
      if c = '"' then firstFault .string offset pending offset' line' text
      else if c ∈ openers then firstFault .plain opened ((c, line) :: pending) offset' line' text
      else if c ∈ closers then
        match pending with
        | [] => some (s!"Unexpected \"{c}\"", offset)
        | (bracket, _) :: outer =>
          if closerOf bracket = c then firstFault .plain opened outer offset' line' text
          else some (s!"Unexpected \"{c}\"", offset)
      else firstFault .plain opened pending offset' line' text

section Equations

variable {opened offset line : Nat} {pending : List (Char × Nat)} {c : Char} {text : List Char}

theorem firstFault_string : firstFault .string opened pending offset line (c :: text) =
    if c = '\n' then some ("Unterminated string literal", opened)
    else firstFault (.inString c) opened pending (offset + c.utf8Size)
      (if c = '\n' then line + 1 else line) text :=
  rfl

theorem firstFault_plain : firstFault .plain opened pending offset line (c :: text) =
    if c = '"' then firstFault .string offset pending (offset + c.utf8Size)
      (if c = '\n' then line + 1 else line) text
    else if c ∈ openers then firstFault .plain opened ((c, line) :: pending) (offset + c.utf8Size)
      (if c = '\n' then line + 1 else line) text
    else if c ∈ closers then
      match pending with
      | [] => some (s!"Unexpected \"{c}\"", offset)
      | (bracket, _) :: outer =>
        if closerOf bracket = c then firstFault .plain opened outer (offset + c.utf8Size)
          (if c = '\n' then line + 1 else line) text
        else some (s!"Unexpected \"{c}\"", offset)
    else firstFault .plain opened pending (offset + c.utf8Size)
      (if c = '\n' then line + 1 else line) text :=
  rfl

end Equations

-- The brackets of a text outside its strings, if no string is cut.
def bracketsOutside? : Mode → List Char → Option (List Char)
  | .plain, [] => some []
  | _, [] => none
  | .escape, _ :: text => bracketsOutside? .string text
  | .string, c :: text => if c = '\n' then none else bracketsOutside? (.inString c) text
  | .plain, c :: text =>
    if c = '"' then bracketsOutside? .string text
    else if c ∈ openers ++ closers then (bracketsOutside? .plain text).map (c :: ·)
    else bracketsOutside? .plain text

inductive Balanced : List Char → Prop
  | nil : Balanced []
  | nest {bracket : Char} {inner later : List Char} (h : bracket ∈ openers)
      (hinner : Balanced inner) (hlater : Balanced later) :
      Balanced (bracket :: (inner ++ closerOf bracket :: later))

-- Brackets that close the pending ones, the innermost first.
inductive Unwinds : List Char → List Char → Prop
  | nil {word : List Char} (h : Balanced word) : Unwinds [] word
  | cons {bracket : Char} {outer inner later : List Char} (hinner : Balanced inner)
      (h : Unwinds outer later) : Unwinds (bracket :: outer) (inner ++ closerOf bracket :: later)

section Balance

variable {pending word : List Char}

theorem Balanced.append {first second : List Char} (h : Balanced first) (h' : Balanced second) :
    Balanced (first ++ second) := by
  induction h with
  | nil => exact h'
  | nest hbracket hinner _ _ ih =>
      rw [List.cons_append, List.append_assoc, List.cons_append]
      exact .nest hbracket hinner ih

theorem Unwinds.prepend {front : List Char} (hfront : Balanced front)
    (h : Unwinds pending word) : Unwinds pending (front ++ word) := by
  cases h with
  | nil h => exact .nil (hfront.append h)
  | cons hinner h =>
      rw [← List.append_assoc]
      exact .cons (hfront.append hinner) h

theorem unwinds_nil_left_iff : Unwinds [] word ↔ Balanced word := by
  constructor
  · intro h
    cases h with
    | nil h => exact h
  · exact .nil

theorem unwinds_nil_iff : Unwinds pending [] ↔ pending = [] := by
  constructor
  · intro h
    cases pending with
    | nil => rfl
    | cons bracket outer =>
        generalize hempty : ([] : List Char) = whole at h
        cases h with
        | cons => simp at hempty
  · rintro rfl
    exact .nil .nil

-- The first bracket opens, or it closes the innermost pending one.
theorem unwinds_cons_iff {c : Char} : Unwinds pending (c :: word) ↔
    (c ∈ openers ∧ Unwinds (c :: pending) word) ∨
      ∃ bracket outer, pending = bracket :: outer ∧ closerOf bracket = c ∧ Unwinds outer word := by
  constructor
  · intro h
    generalize hword : c :: word = whole at h
    cases h with
    | nil h =>
        cases h with
        | nil => cases hword
        | nest hbracket hinner hlater =>
            obtain ⟨rfl, rfl⟩ := List.cons.inj hword
            exact .inl ⟨hbracket, .cons hinner (.nil hlater)⟩
    | @cons bracket outer inner later hinner h =>
        cases hinner with
        | nil =>
            obtain ⟨rfl, rfl⟩ := List.cons.inj hword
            exact .inr ⟨bracket, outer, rfl, rfl, h⟩
        | nest hbracket hinner hbehind =>
            rw [List.cons_append, List.append_assoc, List.cons_append] at hword
            obtain ⟨rfl, rfl⟩ := List.cons.inj hword
            exact .inl ⟨hbracket, .cons hinner (.cons hbehind h)⟩
  · rintro (⟨hc, h⟩ | ⟨bracket, outer, rfl, rfl, h⟩)
    · cases h with
      | cons hinner h =>
          have hnest := h.prepend (.nest hc hinner .nil)
          rwa [List.cons_append, List.append_assoc, List.singleton_append] at hnest
    · exact .cons .nil h

theorem closerOf_not_mem_openers (bracket : Char) : closerOf bracket ∉ openers := by
  unfold closerOf
  split
  · decide
  split <;> decide

theorem unwinds_opener_iff {c : Char} (hc : c ∈ openers) :
    Unwinds pending (c :: word) ↔ Unwinds (c :: pending) word := by
  rw [unwinds_cons_iff, and_iff_right hc, or_iff_left]
  rintro ⟨bracket, _, _, rfl, _⟩
  exact closerOf_not_mem_openers bracket hc

theorem unwinds_closer_iff {c : Char} (hc : c ∉ openers) :
    Unwinds pending (c :: word) ↔
      ∃ bracket outer, pending = bracket :: outer ∧ closerOf bracket = c ∧ Unwinds outer word := by
  rw [unwinds_cons_iff, or_iff_right]
  exact fun h => hc h.1

-- There is no fault just when no string is cut and the brackets outside the strings close the
-- pending ones.
theorem firstFault_eq_none_iff {mode : Mode} {opened : Nat} {brackets : List (Char × Nat)}
    {offset line : Nat} {text : List Char} :
    firstFault mode opened brackets offset line text = none ↔
      ∃ word, bracketsOutside? mode text = some word ∧ Unwinds (brackets.map (·.1)) word := by
  induction text generalizing mode opened brackets offset line with
  | nil =>
      cases mode with
      | plain =>
          simp only [bracketsOutside?, Option.some.injEq, exists_eq_left', unwinds_nil_iff,
            List.map_eq_nil_iff]
          cases brackets <;> simp [firstFault]
      | string => simp [firstFault, bracketsOutside?]
      | escape => simp [firstFault, bracketsOutside?]
  | cons c text ih =>
      cases mode with
      | escape => exact ih
      | string =>
          rw [firstFault_string, bracketsOutside?]
          split
          · simp
          · exact ih
      | plain =>
          rw [firstFault_plain, bracketsOutside?]
          by_cases hquote : c = '"'
          · rw [if_pos hquote, if_pos hquote]
            exact ih
          rw [if_neg hquote, if_neg hquote]
          by_cases hopener : c ∈ openers
          · rw [if_pos hopener, if_pos (List.mem_append_left _ hopener), ih]
            simp [Option.map_eq_some_iff, unwinds_opener_iff hopener]
          rw [if_neg hopener]
          by_cases hcloser : c ∈ closers
          · rw [if_pos hcloser, if_pos (List.mem_append_right _ hcloser)]
            simp only [Option.map_eq_some_iff, exists_exists_and_eq_and,
              unwinds_closer_iff hopener]
            cases brackets with
            | nil => simp
            | cons opening outer =>
                obtain ⟨bracket, row⟩ := opening
                dsimp only
                split
                · rename_i hclose
                  rw [ih]
                  simp [hclose]
                · rename_i hclose
                  simp [hclose]
          · have hother : c ∉ openers ++ closers := fun h =>
              (List.mem_append.mp h).elim hopener hcloser
            rw [if_neg hcloser, if_neg hother]
            exact ih

end Balance

section Reading

-- What reading comes to, in words and with the place at which it shows.
def told (source : List Char) (result : Except Halt Scan) : Option (String × Nat) :=
  (conclude source result).map fun issue => (issue.problem.message, issue.offset)

def lineAfter (text : List Char) : Nat := (Text.placeAfter text).line

theorem lineAfter_concat (text : List Char) (c : Char) :
    lineAfter (text ++ [c]) = if c = '\n' then lineAfter text + 1 else lineAfter text := by
  rw [lineAfter, Text.placeAfter, List.foldl_append]
  exact apply_ite Text.Place.line _ _ _

-- A bracket that is open stands in the source on its line.
def Recorded (source : List Char) (opening : Opening) (pending : Char × Nat) : Prop :=
  opening.bracket = pending.1 ∧
    (Text.placeAt? source opening.offset).map Text.Place.line = some pending.2

-- The characters of the constructs that the plain reading does not know.
def foreign : List Char := ['\'', '`', '/', '<']

-- None of them stands outside the strings.
def knownOutside : Mode → List Char → Bool
  | _, [] => true
  | .escape, _ :: text => knownOutside .string text
  | .string, c :: text => knownOutside (.inString c) text
  | .plain, c :: text =>
    decide (c ∉ foreign) && knownOutside (if c = '"' then .string else .plain) text

theorem knownOutside_plain {c : Char} {text : List Char} :
    knownOutside .plain (c :: text) = true ↔
      c ∉ foreign ∧ knownOutside (if c = '"' then .string else .plain) text = true := by
  rw [knownOutside, Bool.and_eq_true, decide_eq_true_eq]

theorem knownOutside_of_forall {mode : Mode} {text : List Char} (h : ∀ c ∈ text, c ∉ foreign) :
    knownOutside mode text = true := by
  induction text generalizing mode with
  | nil => cases mode <;> rfl
  | cons c text ih =>
      obtain ⟨hc, htext⟩ := List.forall_mem_cons.mp h
      cases mode with
      | plain => exact knownOutside_plain.mpr ⟨hc, ih htext⟩
      | string => exact ih htext
      | escape => exact ih htext

theorem knownOutside_of_word {word text : List Char} (hword : ∀ c ∈ word, inName c = true)
    (h : knownOutside .plain (word ++ text) = true) : knownOutside .plain text = true := by
  induction word with
  | nil => exact h
  | cons c word ih =>
      obtain ⟨hc, hword⟩ := List.forall_mem_cons.mp hword
      have hquote : c ≠ '"' := by
        rintro rfl
        revert hc
        decide
      have hknown := (knownOutside_plain.mp h).2
      rw [if_neg hquote] at hknown
      exact ih hword hknown

theorem knownOutside_of_ended {text later : List Char} (hend : stringEnd '"' text = some later)
    (h : knownOutside .string text = true) : knownOutside .plain later = true := by
  fun_induction stringEnd '"' text with
  | case1 => cases hend
  | case2 => cases hend
  | case3 => cases hend
  | case4 y text _ ih => exact ih hend h
  | case5 text =>
      obtain rfl := Option.some.inj hend
      exact h
  | case6 c text hline hplain hquote ih =>
      rw [knownOutside, Mode.inString, if_neg hplain, if_neg hquote] at h
      exact ih hend h

variable {opened : Nat} {pending : List (Char × Nat)}

theorem not_mem_of_inName {c : Char} (h : inName c = true) : c ∉ '"' :: (openers ++ closers) := by
  have hall : ∀ d ∈ '"' :: (openers ++ closers), inName d = false := by decide
  intro hmem
  exact absurd h (by simp [hall c hmem])

theorem firstFault_other {c : Char} {front text : List Char}
    (h : c ∉ '"' :: (openers ++ closers)) :
    firstFault .plain opened pending (Text.byteLength front) (lineAfter front) (c :: text) =
      firstFault .plain opened pending (Text.byteLength (front ++ [c])) (lineAfter (front ++ [c]))
        text := by
  rw [List.mem_cons, List.mem_append, not_or, not_or] at h
  rw [firstFault_plain, if_neg h.1, if_neg h.2.1, if_neg h.2.2, lineAfter_concat,
    Text.byteLength_append]
  rfl

theorem firstFault_inside {c : Char} {front text : List Char} (h : c ≠ '\n') :
    firstFault .string opened pending (Text.byteLength front) (lineAfter front) (c :: text) =
      firstFault (.inString c) opened pending (Text.byteLength (front ++ [c]))
        (lineAfter (front ++ [c])) text := by
  rw [firstFault_string, if_neg h, lineAfter_concat, Text.byteLength_append]
  rfl

theorem firstFault_escaped (c : Char) (front text : List Char) :
    firstFault .escape opened pending (Text.byteLength front) (lineAfter front) (c :: text) =
      firstFault .string opened pending (Text.byteLength (front ++ [c]))
        (lineAfter (front ++ [c])) text := by
  rw [lineAfter_concat, Text.byteLength_append]
  rfl

theorem firstFault_word {front word text : List Char} (h : ∀ c ∈ word, inName c = true) :
    firstFault .plain opened pending (Text.byteLength front) (lineAfter front) (word ++ text) =
      firstFault .plain opened pending (Text.byteLength (front ++ word)) (lineAfter (front ++ word))
        text := by
  induction word generalizing front with
  | nil => rw [List.append_nil, List.nil_append]
  | cons c word ih =>
      rw [List.cons_append, firstFault_other (not_mem_of_inName (h c (List.mem_cons_self ..))),
        ih fun d hd => h d (List.mem_cons_of_mem c hd), List.append_assoc]
      rfl

theorem firstFault_of_cut {offset line : Nat} {text : List Char}
    (h : stringEnd '"' text = none) :
    firstFault .string opened pending offset line text =
      some ("Unterminated string literal", opened) := by
  fun_induction stringEnd '"' text generalizing offset line with
  | case1 => rfl
  | case2 => rfl
  | case3 => rfl
  | case4 y text _ ih =>
    exact ih h
  | case5 => cases h
  | case6 c text hline hplain hquote ih =>
      rw [firstFault_string, if_neg hline, Mode.inString, if_neg hplain, if_neg hquote]
      exact ih h

theorem firstFault_of_ended (opened : Nat) (pending : List (Char × Nat)) (front : List Char)
    {text later : List Char} (h : stringEnd '"' text = some later) :
    ∃ inside, text = inside ++ later ∧
      firstFault .string opened pending (Text.byteLength front) (lineAfter front) text =
        firstFault .plain opened pending (Text.byteLength (front ++ inside))
          (lineAfter (front ++ inside)) later := by
  fun_induction stringEnd '"' text generalizing front with
  | case1 => cases h
  | case2 => cases h
  | case3 => cases h
  | case4 y text _ ih =>
      obtain ⟨inside, rfl, hfault⟩ := ih (front ++ ['\\'] ++ [y]) h
      refine ⟨'\\' :: y :: inside, rfl, ?_⟩
      rw [firstFault_inside (by decide), Mode.inString, if_pos rfl, firstFault_escaped, hfault,
        List.append_assoc, List.append_assoc]
      rfl
  | case5 text =>
      obtain rfl := Option.some.inj h
      refine ⟨['"'], rfl, ?_⟩
      rw [firstFault_inside (by decide)]
      rfl
  | case6 c text hline hplain hquote ih =>
      obtain ⟨inside, rfl, hfault⟩ := ih (front ++ [c]) h
      refine ⟨c :: inside, rfl, ?_⟩
      rw [firstFault_inside hline, Mode.inString, if_neg hplain, if_neg hquote, hfault,
        List.append_assoc]
      rfl

theorem codeMove_known {s : Scan} {c : Char} {rest : List Char} (h : c ∉ foreign) :
    codeMove none s (c :: rest) =
      if c = '"' then
        match skipString c ⟨rest, s.offset + 1⟩ with
        | none => .done (.error (.broken ⟨.unterminatedString, s.offset⟩))
        | some d => .on (s.afterValue d.1)
      else if inName c then
        .on { s.moveTo (s.toCursor.skipWhile inName) with
          last := some (.word (s.rest.takeWhile inName)) }
      else bracketMove none s c rest := by
  simp only [foreign, List.mem_cons, List.not_mem_nil, or_false, not_or] at h
  obtain ⟨hquote, htick, hslash, hless⟩ := h
  by_cases hstring : c = '"'
  · subst hstring
    rfl
  · rw [if_neg hstring]
    simp only [codeMove, tokenMove, hslash, hquote, htick, hless, hstring, false_and, if_false,
      or_false]

-- Reading code from the scan on, behind `front`, comes to what the plain reading says.
def Agrees (source front : List Char) (s : Scan) : Prop :=
  ∀ (opened : Nat) {pending : List (Char × Nat)},
    List.Forall₂ (Recorded source) s.openings pending →
    told source (readCode none s) =
      firstFault .plain opened pending (Text.byteLength front) (lineAfter front) s.rest

section Turn

variable {source front : List Char} {s : Scan} {c : Char} {rest : List Char}
variable (hrest : s.rest = c :: rest) (hoffset : s.offset = Text.byteLength front)
variable (hopen : List.Forall₂ (Recorded source) s.openings pending)
variable (hknown : knownOutside .plain (c :: rest) = true)
variable (honward : ∀ {t : Scan} {between : List Char}, s.toCursor.Leads t.toCursor →
  s.rest = between ++ t.rest → between ≠ [] → knownOutside .plain t.rest = true →
  Agrees source (front ++ between) t)

include hrest hopen hknown honward

include hoffset in
theorem agrees_string (hquote : c = '"') :
    told source ((match skipString c ⟨rest, s.offset + 1⟩ with
      | none => .done (.error (.broken ⟨.unterminatedString, s.offset⟩))
      | some d => .on (s.afterValue d.1) : Move (Except Halt Scan)).resume (readCode none)) =
      firstFault .plain opened pending (Text.byteLength front) (lineAfter front) (c :: rest) := by
  subst hquote
  have hend := rest_skipString '"' ⟨rest, s.offset + 1⟩
  rw [firstFault_plain, if_pos rfl]
  cases hskip : skipString '"' ⟨rest, s.offset + 1⟩ with
  | none =>
      rw [hskip] at hend
      rw [firstFault_of_cut hend.symm, ← hoffset]
      rfl
  | some d =>
      rw [hskip] at hend
      obtain ⟨inside, hinside, hfault⟩ := firstFault_of_ended (Text.byteLength front) pending
        (front ++ ['"']) hend.symm
      have hstep : s.toCursor.Leads ⟨rest, s.offset + 1⟩ := Cursor.leads_of_cons hrest
      have hleads := hstep.trans (leads_skipString '"' _ d hskip)
      rw [lineAfter_concat, Text.byteLength_append] at hfault
      have htext : s.rest = '"' :: inside ++ d.1.rest :=
        hrest.trans (congrArg ('"' :: ·) hinside)
      have hagrees := honward (t := s.afterValue d.1) hleads htext (by simp)
        (knownOutside_of_ended hend.symm (knownOutside_plain.mp hknown).2)
        (Text.byteLength front) hopen
      rw [List.append_assoc] at hfault
      exact hagrees.trans hfault.symm

theorem agrees_word (hname : inName c = true) :
    told source (readCode none { s.moveTo (s.toCursor.skipWhile inName) with
        last := some (.word (s.rest.takeWhile inName)) }) =
      firstFault .plain opened pending (Text.byteLength front) (lineAfter front) (c :: rest) := by
  have hword : s.rest.takeWhile inName ≠ [] := by simp [hrest, hname]
  have htext : s.rest = s.rest.takeWhile inName ++ s.rest.dropWhile inName :=
    List.takeWhile_append_dropWhile.symm
  have hbehind : knownOutside .plain (s.rest.dropWhile inName) = true := by
    rw [← hrest, htext] at hknown
    exact knownOutside_of_word (fun d hd => List.mem_takeWhile_imp hd) hknown
  have hagrees := honward (t := { s.moveTo (s.toCursor.skipWhile inName) with
    last := some (.word (s.rest.takeWhile inName)) }) (Cursor.leads_skipWhile inName _) htext hword
    hbehind opened hopen
  rw [hagrees, ← hrest]
  conv_rhs => rw [htext]
  exact (firstFault_word fun d hd => List.mem_takeWhile_imp hd).symm

include hoffset in
theorem agrees_bracketMove (hsource : source = front ++ c :: rest) (hquote : c ≠ '"')
    (hname : ¬inName c = true) :
    told source ((bracketMove none s c rest).resume (readCode none)) =
      firstFault .plain opened pending (Text.byteLength front) (lineAfter front) (c :: rest) := by
  have hstep {t : Scan} (h : t.toCursor = ⟨rest, s.offset + c.utf8Size⟩) :
      Agrees source (front ++ [c]) t := by
    have hleads : s.toCursor.Leads t.toCursor := h ▸ Cursor.leads_of_cons hrest
    have htext : s.rest = [c] ++ t.rest := by
      rw [hrest, h]
      rfl
    have hbehind := (knownOutside_plain.mp hknown).2
    rw [if_neg hquote] at hbehind
    exact honward hleads htext (List.cons_ne_nil _ _) (h ▸ hbehind)
  have hplace : Text.placeAt? source s.offset = some (Text.placeAfter front) := by
    rw [hsource, hoffset, Text.placeAt?, Text.before_append]
    rfl
  rw [bracketMove]
  by_cases hopener : c ∈ openers
  · have hc : c = '(' ∨ c = '[' ∨ c = '\x7b' := by simpa [openers] using hopener
    have hrecorded : Recorded source ⟨c, s.offset⟩ (c, lineAfter front) := by
      refine ⟨rfl, ?_⟩
      rw [hplace]
      rfl
    have hagrees := hstep (t := s.enter c rest) rfl opened (.cons hrecorded hopen)
    rw [if_pos hc, firstFault_plain, if_neg hquote, if_pos hopener, ← lineAfter_concat]
    rw [Text.byteLength_append] at hagrees
    exact hagrees
  have hnot : ¬(c = '(' ∨ c = '[' ∨ c = '\x7b') := by simpa [openers] using hopener
  rw [if_neg hnot]
  by_cases hcloser : c ∈ closers
  · have hc : c = ')' ∨ c = ']' ∨ c = '\x7d' := by simpa [closers] using hcloser
    have hsize : c.utf8Size = 1 := by rcases hc with rfl | rfl | rfl <;> rfl
    rw [if_pos hc, firstFault_plain, if_neg hquote, if_neg hopener, if_pos hcloser,
      ← lineAfter_concat]
    generalize hopenings : s.openings = openings at hopen ⊢
    cases hopen with
    | nil => rw [hoffset]; rfl
    | @cons opening record _ _ hrecorded hopen =>
        obtain ⟨bracket, row⟩ := record
        obtain rfl : opening.bracket = bracket := hrecorded.1
        dsimp only
        by_cases hclose : closerOf opening.bracket = c
        · have hagrees := hstep (t := ⟨⟨rest, s.offset + 1⟩, _, some (.punctuation c)⟩)
            (by rw [hsize]) opened hopen
          rw [if_pos hclose, if_pos hclose]
          rw [Text.byteLength_append] at hagrees
          exact hagrees
        · rw [if_neg hclose, if_neg hclose, hoffset]
          rfl
  · have hc : ¬(c = ')' ∨ c = ']' ∨ c = '\x7d') := by simpa [closers] using hcloser
    have hagrees := hstep (t := s.step c rest) rfl opened hopen
    rw [if_neg hc, firstFault_other (by simp [hquote, hopener, hcloser])]
    exact hagrees

end Turn

-- What reading code comes to is what the plain reading says, from any place of the source on.
theorem agrees {source front : List Char} {s : Scan} (hsource : source = front ++ s.rest)
    (hoffset : s.offset = Text.byteLength front) (hknown : knownOutside .plain s.rest = true) :
    Agrees source front s := by
  induction hlength : s.rest.length using Nat.strongRecOn generalizing s front with
  | _ limit ih =>
  subst hlength
  -- From further on it is so; what was read between is behind then.
  have honward : ∀ {t : Scan} {between : List Char}, s.toCursor.Leads t.toCursor →
      s.rest = between ++ t.rest → between ≠ [] → knownOutside .plain t.rest = true →
      Agrees source (front ++ between) t := by
    intro t between hleads hrest hne hbehind
    obtain ⟨passed, hpassed, htoffset⟩ := hleads
    obtain rfl : passed = between := List.append_cancel_right (hpassed.symm.trans hrest)
    refine ih _ ?_ ?_ ?_ hbehind rfl
    · rw [hrest, List.length_append]
      exact Nat.lt_add_of_pos_left (List.length_pos_iff.mpr hne)
    · rw [hsource, hrest, List.append_assoc]
    · rw [htoffset, hoffset, Text.byteLength_append]
  intro opened pending hopen
  rw [readCode_eq]
  cases hrest : s.rest with
  | nil =>
      rw [hrest, List.append_nil] at hsource
      rw [codeMove]
      cases s with
      | mk cursor openings last =>
      cases hopen with
      | nil => rfl
      | @cons opening record _ _ hrecorded _ =>
          obtain ⟨hbracket, hline⟩ := hrecorded
          subst hsource
          simp only [Move.resume, told, conclude, hline, hbracket, Option.getD_some, firstFault]
          rfl
  | cons c rest =>
      rw [hrest] at hsource hknown
      rw [codeMove_known (knownOutside_plain.mp hknown).1]
      split
      · rename_i hquote
        exact agrees_string hrest hoffset hopen hknown honward hquote
      rename_i hquote
      split
      · rename_i hname
        exact agrees_word hrest hopen hknown honward hname
      · rename_i hname
        exact agrees_bracketMove hrest hoffset hopen hknown honward hsource hquote hname

theorem structureIssue?_told {source : List Char} (h : knownOutside .plain source = true) :
    (structureIssue? source).map (fun issue => (issue.problem.message, issue.offset)) =
      firstFault .plain 0 [] 0 1 source := by
  have hagrees : Agrees source [] (.start source) := agrees rfl rfl h
  rw [structureIssue?_eq]
  exact hagrees 0 .nil

-- Where those characters stand in strings only, the check says nothing just when the brackets
-- outside the strings are balanced.
theorem structureIssue?_eq_none_iff {source : List Char}
    (h : knownOutside .plain source = true) :
    structureIssue? source = none ↔
      ∃ word, bracketsOutside? .plain source = some word ∧ Balanced word := by
  rw [← Option.map_eq_none_iff, structureIssue?_told h, firstFault_eq_none_iff]
  simp only [List.map_nil, unwinds_nil_left_iff]

-- The check of a text without single quotation marks, backticks, slashes and `<` says what the plain
-- reading says, and it says nothing just when the brackets outside the strings are balanced.
theorem structureIssue?_plain {source : List Char} (h : ∀ c ∈ source, c ∉ foreign) :
    (structureIssue? source).map (fun issue => (issue.problem.message, issue.offset)) =
        firstFault .plain 0 [] 0 1 source ∧
      (structureIssue? source = none ↔
        ∃ word, bracketsOutside? .plain source = some word ∧ Balanced word) :=
  ⟨structureIssue?_told (knownOutside_of_forall h),
    structureIssue?_eq_none_iff (knownOutside_of_forall h)⟩

theorem structureIssue?_plain_closer :
    let source := "f(\x7ba: \"é)\\\n\"\x7d,\n [x)".toList
    (∀ c ∈ source, c ∉ foreign) ∧
      firstFault .plain 0 [] 0 1 source = some ("Unexpected \")\"", 19) ∧
      (structureIssue? source).map (fun issue => (issue.problem.message, issue.offset)) =
        some ("Unexpected \")\"", 19) := by
  have hknown : ∀ c ∈ "f(\x7ba: \"é)\\\n\"\x7d,\n [x)".toList, c ∉ foreign := by decide
  have hfault : firstFault .plain 0 [] 0 1 "f(\x7ba: \"é)\\\n\"\x7d,\n [x)".toList =
      some ("Unexpected \")\"", 19) := by decide +kernel
  exact ⟨hknown, hfault, (structureIssue?_plain hknown).1.trans hfault⟩

end Reading

end LivePreview.Script
