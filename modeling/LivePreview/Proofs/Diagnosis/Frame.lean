import LivePreview.Diagnosis.Location
import LivePreview.Proofs.Pattern.Running

namespace LivePreview.Location

open Pattern

-- The number of words that start in a text, `inside` telling whether a word goes on into it.
def words : (inside : Bool) → List Char → Nat
  | _, [] => 0
  | inside, c :: text =>
    if Text.isBlank c then words false text else (if inside then 0 else 1) + words true text

section Words

variable {inside : Bool} {text later : List Char}

theorem words_le (text : List Char) : words true text ≤ words false text := by
  cases text with
  | nil => exact Nat.le_refl _
  | cons c text =>
      unfold words
      split
      · exact Nat.le_refl _
      · simp

theorem words_append_le (inside : Bool) (text later : List Char) :
    words inside (text ++ later) ≤ words inside text + words false later := by
  induction text generalizing inside with
  | nil =>
      cases inside with
      | true => simpa [words] using words_le later
      | false => simp [words]
  | cons c text ih =>
      have hfalse := ih false
      have htrue := ih true
      rw [List.cons_append, words, words]
      split <;> omega

theorem words_le_append (inside : Bool) (text later : List Char) :
    words inside text ≤ words inside (text ++ later) := by
  induction text generalizing inside with
  | nil => simp [words]
  | cons c text ih =>
      have hfalse := ih false
      have htrue := ih true
      rw [List.cons_append, words, words]
      split <;> omega

-- A blank divides the words before it from those behind it.
theorem words_append_blank {c : Char} (hc : Text.isBlank c = true) (inside : Bool)
    (text later : List Char) :
    words inside (text ++ c :: later) = words inside text + words false later := by
  induction text generalizing inside with
  | nil => simp [words, hc]
  | cons d text ih =>
      rw [List.cons_append, words, words, ih, ih]
      split <;> omega

theorem words_of_blank (inside : Bool) (h : ∀ c ∈ text, Text.isBlank c = true) :
    words inside text = 0 := by
  induction text generalizing inside with
  | nil => rfl
  | cons c text ih =>
      obtain ⟨hc, htext⟩ := List.forall_mem_cons.mp h
      rw [words, if_pos hc, ih _ htext]

theorem words_true_of_solid (h : ∀ c ∈ text, Text.isBlank c = false) : words true text = 0 := by
  induction text with
  | nil => rfl
  | cons c text ih =>
      obtain ⟨hc, htext⟩ := List.forall_mem_cons.mp h
      rw [words, if_neg (by simp [hc]), ih htext]
      rfl

theorem words_of_solid (h : ∀ c ∈ text, Text.isBlank c = false) : words false text ≤ 1 := by
  cases text with
  | nil => simp [words]
  | cons c text =>
      obtain ⟨hc, htext⟩ := List.forall_mem_cons.mp h
      rw [words, if_neg (by simp [hc]), words_true_of_solid htext]
      simp

theorem words_pos {c : Char} (hmem : c ∈ text) (hc : Text.isBlank c = false) :
    1 ≤ words false text := by
  induction text with
  | nil => cases hmem
  | cons d text ih =>
      rw [words]
      split
      · rename_i hd
        rcases List.mem_cons.mp hmem with rfl | hmem
        · rw [hc] at hd
          cases hd
        · exact ih hmem
      · simp

end Words

-- The beginning of a stack frame: the word `at` before a blank.
def opensFrame (text : List Char) : Bool :=
  text.take 2 == ['a', 't'] && (text.drop 2).head?.any Text.isBlank

-- A message in which no stack frame begins that might go on to a place in a file: behind what could
-- be the beginning of one there is another word, but no colon.
def Quiet (message : List Char) : Prop :=
  ∀ text, text <:+ message → opensFrame (text ++ ['\n']) = true →
    ':' ∉ text ∧ ∃ c ∈ text.drop 3, Text.isBlank c = false

-- A path that a stack frame can hold: no character in it means anything else there.
def Plain (path : List Char) : Prop :=
  path ≠ [] ∧ ∀ c ∈ path, Text.isBlank c = false ∧ c ∉ ['(', ')', ':', '?', '#']

instance (path : List Char) : Decidable (Plain path) :=
  decidable_of_iff ((!path.isEmpty && path.all fun c =>
    !Text.isBlank c && !List.elem c ['(', ')', ':', '?', '#']) = true) (by simp [Plain])

-- A stack frame without the blanks before it.
def frameText (path line column : List Char) : List Char :=
  "at ".toList ++ (path ++ ':' :: (line ++ ':' :: column))

theorem opensFrame_append (text later : List Char) :
    opensFrame (text ++ '\n' :: later) = opensFrame (text ++ ['\n']) := by
  match text with
  | [] => rfl
  | [a] => simp [opensFrame]
  | [a, b] => simp [opensFrame]
  | a :: b :: c :: text => simp [opensFrame]

theorem opensFrame_iff {text : List Char} :
    opensFrame text = true ↔
      ∃ c rest, text = 'a' :: 't' :: c :: rest ∧ Text.isBlank c = true := by
  match text with
  | [] => simp [opensFrame]
  | [a] => simp [opensFrame]
  | [a, b] => simp [opensFrame]
  | a :: b :: c :: text =>
      simp only [opensFrame, List.take_succ_cons, List.take_zero, List.drop_succ_cons,
        List.drop_zero, List.head?_cons, Option.any_some, Bool.and_eq_true, beq_iff_eq,
        List.cons.injEq, and_true]
      constructor
      · rintro ⟨⟨rfl, rfl⟩, hc⟩
        exact ⟨c, text, ⟨rfl, rfl, rfl, rfl⟩, hc⟩
      · rintro ⟨_, _, ⟨rfl, rfl, rfl, rfl⟩, hc⟩
        exact ⟨⟨rfl, rfl⟩, hc⟩

private theorem solid_of_notBlank {first : CharClass} {text : List Char}
    (h : ∀ c ∈ text, (CharClass.not (.union .blank first)).has c = true) :
    ∀ c ∈ text, Text.isBlank c = false := by
  intro c hc
  have hnot := h c hc
  simp only [CharClass.has, Bool.not_eq_true', Bool.or_eq_false_iff] at hnot
  exact hnot.1

-- Up to its first colon a stack frame has three words at the most: `at`, the caller and the file.
theorem reads_frame {text : List Char} (h : Reads frame text) :
    opensFrame text = true ∧ ∃ start rest, text = start ++ ':' :: rest ∧ words false start ≤ 3 := by
  obtain ⟨edge, _, rfl, hedge, h⟩ := h.exists_seq
  obtain ⟨atWord, _, rfl, hat, h⟩ := h.exists_seq
  obtain ⟨gap, _, rfl, hgap, h⟩ := h.exists_seq
  obtain ⟨caller, _, rfl, hcaller, h⟩ := h.exists_seq
  obtain ⟨paren, _, rfl, hparen, h⟩ := h.exists_seq
  obtain ⟨file, _, rfl, hfile, h⟩ := h.exists_seq
  obtain ⟨colon, rest, rfl, hcolon, _⟩ := h.exists_seq
  obtain rfl := hedge.eq_assert
  obtain rfl := hat.eq_chars
  obtain rfl := hcolon.eq_char
  obtain ⟨hgapLength, hgapBlank⟩ := hgap.of_rounds_set
  have hfileSolid := solid_of_notBlank hfile.of_group.of_rounds_set.2
  have hcallerWords : words false caller ≤ 1 := by
    rcases hcaller.eq_nil_or_of_maybe with rfl | hcaller
    · simp [words]
    · obtain ⟨name, space, rfl, hname, hspace⟩ := hcaller.exists_seq
      have hname := words_of_solid (solid_of_notBlank hname.of_rounds_set.2)
      have hspace := words_of_blank false hspace.of_rounds_set.2
      have := words_append_le false name space
      omega
  have hparenSolid : ∀ c ∈ paren, Text.isBlank c = false := by
    rcases hparen.eq_nil_or_of_maybe with rfl | hparen
    · simp
    · rw [hparen.eq_char]
      exact List.forall_mem_singleton.mpr (by decide)
  refine ⟨?_, "at".toList ++ (gap ++ (caller ++ (paren ++ file))), rest, by simp, ?_⟩
  · cases gap with
    | nil => simp at hgapLength
    | cons c gap => exact opensFrame_iff.mpr ⟨c, _, rfl, hgapBlank c List.mem_cons_self⟩
  · have hfileWords : words false (paren ++ file) ≤ 1 :=
      words_of_solid (List.forall_mem_append.mpr ⟨hparenSolid, hfileSolid⟩)
    have hgapWords := words_of_blank false hgapBlank
    have hat : words false "at".toList = 1 := by decide
    have h1 := words_append_le false "at".toList (gap ++ (caller ++ (paren ++ file)))
    have h2 := words_append_le false gap (caller ++ (paren ++ file))
    have h3 := words_append_le false caller (paren ++ file)
    omega

-- What stands before the first occurrence of a character stands before every one.
private theorem prefix_of_append_cons {c : Char} {first second later other : List Char}
    (h : first ++ c :: later = second ++ c :: other) (hc : c ∉ first) : first <+: second := by
  rcases List.append_eq_append_iff.mp h with ⟨between, rfl, _⟩ | ⟨between, rfl, hrest⟩
  · exact List.prefix_append _ _
  · cases between with
    | nil => simp
    | cons d between =>
        obtain ⟨rfl, _⟩ := List.cons.inj hrest
        exact absurd (List.mem_append_right _ List.mem_cons_self) hc

-- Before and behind the blank that makes the beginning of a frame there are words.
private theorem two_le_words {text : List Char} {c : Char} (h : opensFrame (text ++ ['\n']) = true)
    (hmem : c ∈ text.drop 3) (hc : Text.isBlank c = false) : 2 ≤ words false text := by
  match text with
  | [] => cases hmem
  | [_] => cases hmem
  | [_, _] => cases hmem
  | first :: second :: blank :: text =>
      obtain ⟨d, rest, heq, hd⟩ := opensFrame_iff.mp h
      obtain ⟨rfl, rfl, rfl, _⟩ :
          first = 'a' ∧ second = 't' ∧ blank = d ∧ text ++ ['\n'] = rest := by
        simpa using heq
      have hword : 1 ≤ words false text := words_pos hmem hc
      have hsplit : words false ('a' :: 't' :: blank :: text) =
          words false ['a', 't'] + words false text :=
        words_append_blank hd false ['a', 't'] text
      have hone : words false ['a', 't'] = 1 := by decide
      omega

section Report

variable {message path line column : List Char}

-- No frame begins in the message: on the way from there to the first colon of the report there are
-- too many words.
theorem not_reads_frame {text later front : List Char} (hmessage : Quiet message)
    (hpath : Plain path) (hsuffix : text <:+ message)
    (h : text ++ "\n    ".toList ++ frameText path line column = front ++ later) :
    ¬Reads frame front := by
  intro hreads
  obtain ⟨hopens, start, rest, rfl, hwords⟩ := reads_frame hreads
  have hwhole : opensFrame (text ++ "\n    ".toList ++ frameText path line column) = true := by
    obtain ⟨c, tail, heq, hc⟩ := opensFrame_iff.mp hopens
    rw [h, heq]
    exact opensFrame_iff.mpr ⟨c, _, rfl, hc⟩
  have hbegin : opensFrame (text ++ ['\n']) = true := by
    rw [List.append_assoc] at hwhole
    rwa [← opensFrame_append]
  obtain ⟨hcolon, c, hc, hsolid⟩ := hmessage text hsuffix hbegin
  obtain ⟨p, path, rfl⟩ := List.exists_cons_of_ne_nil hpath.1
  have hpathColon : ':' ∉ p :: path := fun hmem => (hpath.2 ':' hmem).2 (by simp)
  -- what stands before the first colon of the report
  have hbefore : text ++ "\n    at ".toList ++ p :: path <+: start := by
    have hcolons : text ++ "\n    at ".toList ++ p :: path ++ ':' :: (line ++ ':' :: column) =
        start ++ ':' :: (rest ++ later) := by
      rw [List.append_assoc start, List.cons_append] at h
      rw [← h]
      simp [frameText]
    exact prefix_of_append_cons hcolons (by simpa [hcolon] using hpathColon)
  have htext := two_le_words hbegin hc hsolid
  have hp : Text.isBlank p = false := (hpath.2 p List.mem_cons_self).1
  have hcount : words false (text ++ "\n    at ".toList ++ p :: path) ≤ 3 := by
    obtain ⟨more, rfl⟩ := hbefore
    exact Nat.le_trans (words_le_append false _ more) hwords
  have hat : words false ("    at ".toList ++ p :: path) = 1 + words false (p :: path) :=
    words_append_blank (c := ' ') (by decide) false "    at".toList (p :: path)
  have hsplit := words_append_blank (c := '\n') (by decide) false text
    ("    at ".toList ++ p :: path)
  have hone : 1 ≤ words false (p :: path) := words_pos List.mem_cons_self hp
  rw [List.append_assoc] at hcount
  have : "\n    at ".toList ++ p :: path = '\n' :: ("    at ".toList ++ p :: path) := rfl
  rw [this] at hcount
  omega

-- A number in decimal digits.
def Digits (text : List Char) : Prop := text ≠ [] ∧ ∀ c ∈ text, c.isDigit = true

private theorem toNat_of_digit {c : Char} (h : c.isDigit = true) : 48 ≤ c.toNat ∧ c.toNat ≤ 57 := by
  simp only [Char.isDigit, Bool.and_eq_true, decide_eq_true_eq, UInt32.le_iff_toNat_le] at h
  exact h

private theorem digit_has {c : Char} (h : c.isDigit = true) : CharClass.digit.has c = true := by
  have hrange := toNat_of_digit h
  rw [CharClass.has, Text.isDecimalDigit, if_pos (by omega)]
  exact h

theorem not_blank_of_digit {c : Char} (h : c.isDigit = true) : Text.isBlank c = false := by
  have hrange := toNat_of_digit h
  simp only [Text.isBlank, Bool.or_eq_false_iff, Bool.and_eq_false_imp, decide_eq_true_eq,
    decide_eq_false_iff_not, beq_eq_false_iff_ne]
  omega

private def callerChars : CharClass := .not (.union .blank (.one '('))

private def fileChars : CharClass := .not (.union .blank (.ofList ['(', ')']))

private def caller : Pattern := seq (plus (.set callerChars)) blanks

private theorem frame_eq :
    frame = seq edge (seq (text "at") (seq blanks (seq (maybe caller) (seq (maybe (char '('))
      (seq (group 1 (plusLazy (.set fileChars))) (seq (char ':') (seq (group 2 digits)
        (seq (char ':') (seq (group 3 digits) (maybe (char ')'))))))))))) :=
  rfl

section Run

variable {spot : Spot} {found : Captures} {finish : Continuation} {result : Spot × Captures}

private theorem run_char_eq_none {c : Char} {text later : List Char}
    (hrest : spot.rest = text ++ later) (hne : text ≠ []) (hc : c ∉ text) :
    (char c).run spot found finish = none := by
  refine run_set_eq_none fun first hfirst => ?_
  rw [hrest, List.head?_append, List.head?_eq_some_head hne, Option.some_or] at hfirst
  have hmem : first ∈ text := Option.mem_some_iff.mp hfirst ▸ List.head_mem hne
  have hother : first ≠ c := fun h => hc (h ▸ hmem)
  simp [CharClass.has, hother]

-- The name of a caller has a blank behind it.
private theorem run_caller_eq_none (h : ∀ c ∈ spot.rest, Text.isBlank c = false) :
    caller.run spot found finish = none := by
  refine run_eq_none (fun text later htext hreads => ?_) found finish
  obtain ⟨name, space, rfl, _, hspace⟩ := hreads.exists_seq
  obtain ⟨hlength, hblank⟩ := hspace.of_rounds_set
  obtain ⟨c, space, rfl⟩ := List.exists_cons_of_length_pos hlength
  have hc := h c (by rw [htext]; simp)
  rw [show Text.isBlank c = true from hblank c List.mem_cons_self] at hc
  cases hc

-- A path is read up to the colon behind it: before that no colon follows.
private theorem run_path {more : Pattern} {later : List Char} (hpath : Plain path)
    (hrest : spot.rest = path ++ ':' :: later)
    (hmore : more.run ((spot.skip path.length).next ':' later)
      (⟨1, spot, spot.skip path.length⟩ :: found) finish = some result) :
    (seq (group 1 (plusLazy (.set fileChars))) (seq (char ':') more)).run spot found finish =
      some result := by
  have hchars : ∀ c ∈ path, fileChars.has c = true := by
    intro c hc
    obtain ⟨hblank, hother⟩ := hpath.2 c hc
    simp_all [fileChars, CharClass.has, CharClass.ofList]
  rw [run_seq, run_group]
  refine run_plusLazy_set hrest hpath.1 hchars ?_ ?_
  · intro count _ hcount
    have hsplit : spot.rest = path.take count ++ (path.drop count ++ ':' :: later) := by
      rw [← List.append_assoc, List.take_append_drop]
      exact hrest
    have hskip := Spot.rest_skip hsplit
    rw [List.length_take, Nat.min_eq_left (Nat.le_of_lt hcount)] at hskip
    rw [run_seq]
    refine run_char_eq_none hskip (by simpa using hcount) fun hmem => ?_
    exact (hpath.2 ':' (List.mem_of_mem_drop hmem)).2 (by simp)
  · rw [run_seq, run_char (Spot.rest_skip hrest)]
    exact hmore

private theorem run_number {index : Nat} {more : Pattern} {number later : List Char}
    (hnumber : Digits number) (hrest : spot.rest = number ++ later)
    (hlater : ∀ c ∈ later.head?, CharClass.digit.has c = false)
    (hmore : more.run (spot.skip number.length)
      (⟨index, spot, spot.skip number.length⟩ :: found) finish = some result) :
    (seq (group index digits) more).run spot found finish = some result := by
  rw [run_seq, run_group]
  exact run_plus_set hrest hnumber.1 (fun c hc => digit_has (hnumber.2 c hc)) hlater hmore

end Run

-- A frame reads back the path and the numbers that were written into it.
theorem matchAt_frame {spot : Spot} (hrest : spot.rest = frameText path line column)
    (hlast : spot.last = some ' ') (hpath : Plain path) (hline : Digits line)
    (hcolumn : Digits column) :
    ∃ found, frame.matchAt spot = some found ∧ found.group? 1 = some path ∧
      found.group? 2 = some line ∧ found.group? 3 = some column := by
  have hne := hpath.1
  have hplain := hpath.2
  -- the spots between the parts of the frame
  have hat : spot.rest = "at".toList ++ ' ' :: (path ++ ':' :: (line ++ ':' :: column)) := hrest
  have hgap : (spot.skip "at".toList.length).rest =
      [' '] ++ (path ++ ':' :: (line ++ ':' :: column)) :=
    Spot.rest_skip hat
  generalize hfileSpot : (spot.skip "at".toList.length).skip [' '].length = file at *
  have hfile : file.rest = path ++ ':' :: (line ++ ':' :: column) :=
    hfileSpot ▸ Spot.rest_skip hgap
  generalize hcolonSpot : file.skip path.length = colon at *
  have hcolon : colon.rest = ':' :: (line ++ ':' :: column) := hcolonSpot ▸ Spot.rest_skip hfile
  have hlineSpot : (colon.next ':' (line ++ ':' :: column)).rest = line ++ ':' :: column := rfl
  generalize hsecondSpot : (colon.next ':' (line ++ ':' :: column)).skip line.length = second at *
  have hsecond : second.rest = ':' :: column := hsecondSpot ▸ Spot.rest_skip hlineSpot
  have hcolumnSpot : (second.next ':' column).rest = column ++ [] := by simp [Spot.next]
  generalize hstopSpot : (second.next ':' column).skip column.length = stop at *
  have hstop : stop.rest = [] := hstopSpot ▸ Spot.rest_skip hcolumnSpot
  have hedge : Assertion.wordBoundary.holds spot = true := by
    rw [Assertion.holds, hlast, hat]
    exact show (Text.isWordCharacter ' ' != Text.isWordCharacter 'a') = true by decide
  have hsolid : ∀ c ∈ path ++ ':' :: (line ++ ':' :: column), Text.isBlank c = false := by
    simp only [List.forall_mem_append, List.forall_mem_cons]
    exact ⟨fun c hc => (hplain c hc).1, by decide, fun c hc => not_blank_of_digit (hline.2 c hc),
      by decide, fun c hc => not_blank_of_digit (hcolumn.2 c hc)⟩
  have hrun : frame.run spot [] (fun stop found => some (stop, found)) = some (stop,
      [⟨3, second.next ':' column, stop⟩, ⟨2, colon.next ':' (line ++ ':' :: column), second⟩,
        ⟨1, file, colon⟩]) := by
    rw [frame_eq, run_seq, edge, run_assert hedge, run_seq, run_text hat, run_seq, blanks]
    refine run_plus_set hgap (by simp) (List.forall_mem_singleton.mpr (by decide)) ?_ ?_
    · intro c hc
      exact hsolid c (List.mem_of_mem_head? hc)
    rw [hfileSpot, run_seq, run_maybe, run_caller_eq_none (hfile ▸ hsolid), Option.none_or,
      run_seq, run_maybe, run_char_eq_none hfile hne fun hmem => (hplain '(' hmem).2 (by simp),
      Option.none_or]
    refine run_path hpath hfile ?_
    rw [hcolonSpot]
    refine run_number hline hlineSpot (by simp; decide) ?_
    rw [hsecondSpot, run_seq, run_char hsecond]
    refine run_number hcolumn hcolumnSpot (by simp) ?_
    rw [hstopSpot, run_maybe, Pattern.char, run_set_eq_none (by simp [hstop]), Option.none_or]
  refine ⟨_, by rw [matchAt, hrun]; rfl, ?_, ?_, ?_⟩
  · exact congrArg some (capture_text (hfile.trans (by rw [hcolon])))
  · exact congrArg some (capture_text (hlineSpot.trans (by rw [hsecond])))
  · exact congrArg some (capture_text (hcolumnSpot.trans (by rw [hstop])))

-- The first frame in a report is the one that was written behind the message.
theorem find?_report (hmessage : Quiet message) (hpath : Plain path) (hline : Digits line)
    (hcolumn : Digits column) :
    ∃ found, frame.find? (message ++ "\n    ".toList ++ frameText path line column) = some found ∧
      found.group? 1 = some path ∧ found.group? 2 = some line ∧ found.group? 3 = some column := by
  generalize hspot : Spot.start (message ++ "\n    ".toList ++ frameText path line column) = spot
  have hrest : spot.rest = message ++ ("\n    ".toList ++ frameText path line column) := by
    rw [← hspot, ← List.append_assoc]
    rfl
  have hgap : (spot.skip message.length).rest = "\n    ".toList ++ frameText path line column :=
    Spot.rest_skip hrest
  have hframe := Spot.rest_skip hgap
  have hlast := Spot.last_skip "\n   ".toList ' ' hgap
  obtain ⟨found, hmatch, hgroups⟩ := matchAt_frame hframe hlast hpath hline hcolumn
  refine ⟨found, ?_, hgroups⟩
  have hmessageNone : ∀ front, front ≠ [] → front <:+ message → ∀ start : Spot,
      start.rest = front ++ ("\n    ".toList ++ frameText path line column) →
      frame.matchAt start = none := by
    intro front _ hsuffix start hstart
    refine matchAt_eq_none fun text later htext => ?_
    have hwhole : front ++ "\n    ".toList ++ frameText path line column = text ++ later := by
      rw [← htext, hstart, List.append_assoc]
    exact not_reads_frame hmessage hpath hsuffix hwhole
  have hgapNone : ∀ front, front ≠ [] → front <:+ "\n    ".toList → ∀ start : Spot,
      start.rest = front ++ frameText path line column → frame.matchAt start = none := by
    intro front hne hsuffix start hstart
    refine matchAt_eq_none fun text later htext hreads => ?_
    obtain ⟨c, rest, heq, _⟩ := opensFrame_iff.mp (reads_frame hreads).1
    obtain ⟨d, front, rfl⟩ := List.exists_cons_of_ne_nil hne
    have hd : d = 'a' := by
      have hhead := htext.symm.trans hstart
      rw [heq] at hhead
      exact (List.cons.inj hhead).1.symm
    have hmem : 'a' ∈ "\n    ".toList := hd ▸ hsuffix.subset List.mem_cons_self
    exact absurd hmem (by decide)
  rw [find?, hspot, findFrom_skip hrest hmessageNone, findFrom_skip hgap hgapNone,
    findFrom_of_matchAt hmatch]

end Report

end LivePreview.Location
