import LivePreview.Proofs.Script.Issues
import LivePreview.Proofs.Script.Termination
import Mathlib.Data.List.TakeWhile

namespace LivePreview

namespace Text.Cursor

-- The cursor in the text with more behind it.
def extend (c : Cursor) (later : List Char) : Cursor := ⟨c.rest ++ later, c.offset⟩

-- What stops before the end of the text stops at the same place when there is more behind.
theorem skipWhile_extend {c : Cursor} {test : Char → Bool} (h : (c.skipWhile test).rest ≠ [])
    (later : List Char) :
    (c.extend later).skipWhile test = (c.skipWhile test).extend later ∧
      (c.rest ++ later).takeWhile test = c.rest.takeWhile test := by
  have hne : c.rest.dropWhile test ≠ [] := h
  have htake : (c.rest ++ later).takeWhile test = c.rest.takeWhile test := by
    rw [List.takeWhile_append, if_neg]
    intro hlength
    apply hne
    rw [List.dropWhile_eq_nil_iff]
    exact List.takeWhile_eq_self_iff.mp
      ((List.takeWhile_prefix test).eq_of_length hlength)
  have hdrop : (c.rest ++ later).dropWhile test = c.rest.dropWhile test ++ later := by
    rw [List.dropWhile_append, if_neg (by simpa using hne)]
  refine ⟨?_, htake⟩
  simp only [skipWhile, extend, htake, hdrop]

end Text.Cursor

namespace Script

open Text (Cursor)
open Scan

-- The scan of the text with more behind it.
def Scan.extend (s : Scan) (later : List Char) : Scan := { s with rest := s.rest ++ later }

-- Reading came to the end of what it reads, or to a closing bracket out of place.
inductive Fixed : Except Halt Scan → Prop
  | ok (t : Scan) : Fixed (.ok t)
  | closer (bracket : Char) (offset : Nat) :
      Fixed (.error (.broken ⟨.unexpectedCloser bracket, offset⟩))

-- Such a result is the same when there is more text behind.
def Streams (read : Scan → Except Halt Scan) (s : Scan) : Prop :=
  Fixed (read s) → ∀ later, read (s.extend later) = (read s).map (·.extend later)

def Move.extend (later : List Char) : Move (Except Halt Scan) → Move (Except Halt Scan)
  | on t => on (t.extend later)
  | done result => done (result.map (·.extend later))

-- The turn went to the end of the text, or what it came to may yet change.
inductive Cut : Move (Except Halt Scan) → Prop
  | on {t : Scan} (h : t.rest = []) : Cut (.on t)
  | done {result : Except Halt Scan} (h : ¬Fixed result) : Cut (.done result)

theorem Streams.cut_or {read : Scan → Except Halt Scan} {t : Scan} (h : Streams read t)
    (later : List Char) :
    (∃ halt, read t = .error halt ∧ ¬Fixed (.error halt)) ∨
      read (t.extend later) = (read t).map (·.extend later) := by
  by_cases hfixed : Fixed (read t)
  · exact .inr (h hfixed later)
  · cases hread : read t with
    | ok u => exact absurd (hread ▸ .ok u) hfixed
    | error halt => exact .inl ⟨halt, rfl, hread ▸ hfixed⟩

-- A reader streams if each of its turns that does not go to the end of the text is the same when
-- there is more, and at the end of the text nothing is fixed.
theorem streams_of_move {read : Scan → Except Halt Scan} {move : Scan → Move (Except Halt Scan)}
    {s : Scan} (hread : ∀ t, read t = (move t).resume read)
    (hended : ∀ t : Scan, t.rest = [] → ¬Fixed (read t))
    (hmove : ∀ later, Cut (move s) ∨ move (s.extend later) = (move s).extend later)
    (hnext : ∀ t, move s = .on t → Streams read t) : Streams read s := by
  intro hfixed later
  rw [hread] at hfixed ⊢
  rcases hmove later with hcut | hsame
  · cases hm : move s with
    | on t =>
        rw [hm] at hcut hfixed
        cases hcut with
        | on hrest => exact absurd hfixed (hended t hrest)
    | done result =>
        rw [hm] at hcut hfixed
        cases hcut with
        | done hnot => exact absurd hfixed hnot
  · rw [hsame, hread s]
    cases hm : move s with
    | on t =>
        rw [hm] at hfixed
        exact hnext t hm hfixed later
    | done result => rfl

theorem stringEnd_append_of_ended {quote : Char} {text behind : List Char}
    (h : stringEnd quote text = some behind) (later : List Char) :
    stringEnd quote (text ++ later) = some (behind ++ later) := by
  fun_induction stringEnd quote text with
  | case1 | case2 | case3 => cases h
  | case4 d text _ ih =>
      rw [List.cons_append, stringEnd_cons, if_neg (by decide), if_pos rfl]
      exact ih h
  | case5 text hline hplain =>
      obtain rfl := Option.some.inj h
      rw [List.cons_append, stringEnd_cons, if_neg hline, if_neg hplain, if_pos rfl]
  | case6 c text hline hplain hquote ih =>
      rw [List.cons_append, stringEnd_cons, if_neg hline, if_neg hplain, if_neg hquote]
      exact ih h

-- A string that ends does not see what is behind it.
theorem skipString_extend {quote : Char} {c : Cursor} {d : Cursor.Onward c}
    (h : skipString quote c = some d) (later : List Char) :
    ∃ e, skipString quote (c.extend later) = some e ∧ e.1 = d.1.extend later := by
  have hend := rest_skipString quote c
  have hend' := rest_skipString quote (c.extend later)
  rw [h, Option.map_some] at hend
  have hlater : (skipString quote (c.extend later)).map (·.1.rest) = some (d.1.rest ++ later) :=
    hend'.trans (stringEnd_append_of_ended hend.symm later)
  obtain ⟨e, he, hrest⟩ := Option.map_eq_some_iff.mp hlater
  refine ⟨e, he, ?_⟩
  -- both are as far behind the opening quotation mark as the string is long
  obtain ⟨inside, hinside, hoffset⟩ := leads_skipString quote c d h
  obtain ⟨inside', hinside', hoffset'⟩ := leads_skipString quote _ e he
  have htext : c.rest ++ later = inside' ++ e.1.rest := hinside'
  rw [hinside, hrest, List.append_assoc] at htext
  obtain rfl := List.append_cancel_right htext
  calc e.1 = ⟨e.1.rest, e.1.offset⟩ := rfl
    _ = ⟨d.1.rest ++ later, d.1.offset⟩ := by rw [hrest, hoffset', hoffset]; rfl

section Turns

variable {s : Scan} {c : Char} {rest : List Char}

theorem bracketMove_extend (base : Option Nat) (s : Scan) (c : Char) (rest later : List Char) :
    bracketMove base (s.extend later) c (rest ++ later) =
      (bracketMove base s c rest).extend later := by
  unfold bracketMove
  split
  · rfl
  split
  · cases hopenings : s.openings with
    | nil =>
        simp only [Scan.extend, hopenings]
        rfl
    | cons opening outer =>
        simp only [Scan.extend, hopenings]
        split
        · split <;> rfl
        · rfl
  · rfl

theorem tokenMove_extend (base : Option Nat) (hangle : c ≠ '<')
    (htemplate : c = '`' → Streams (readTemplate s.offset) (s.moveTo ⟨rest, s.offset + 1⟩))
    (later : List Char) :
    Cut (tokenMove base s c rest) ∨ tokenMove base (s.extend later) c (rest ++ later) =
      (tokenMove base s c rest).extend later := by
  have hopens : (s.extend later).opensString = s.opensString := rfl
  unfold tokenMove
  rw [hopens]
  by_cases hquote : c = '"' ∨ c = '\'' ∧ s.opensString
  · rw [if_pos hquote, if_pos hquote]
    cases hskip : skipString c ⟨rest, s.offset + 1⟩ with
    | none => exact .inl (.done nofun)
    | some d =>
        obtain ⟨e, he, hsame⟩ := skipString_extend hskip later
        have he' : skipString c ⟨rest ++ later, (s.extend later).offset + 1⟩ = some e := he
        right
        simp only [he', Scan.afterValue, hsame]
        rfl
  rw [if_neg hquote, if_neg hquote]
  by_cases htick : c = '`'
  · rw [if_pos htick, if_pos htick]
    have hmove : (s.extend later).moveTo ⟨rest ++ later, (s.extend later).offset + 1⟩ =
      (s.moveTo ⟨rest, s.offset + 1⟩).extend later := rfl
    rw [hmove]
    rcases (htemplate htick).cut_or later with ⟨halt, hread, hcut⟩ | hsame
    · rw [hread]
      exact .inl (.done hcut)
    · right
      have hoffset : (s.extend later).offset = s.offset := rfl
      rw [hoffset, hsame]
      cases readTemplate s.offset (s.moveTo ⟨rest, s.offset + 1⟩) <;> rfl
  rw [if_neg htick, if_neg htick]
  simp only [hangle, false_and, if_false]
  by_cases hname : inName c
  · rw [if_pos hname, if_pos hname]
    by_cases hend : (s.toCursor.skipWhile inName).rest = []
    · exact .inl (.on hend)
    · obtain ⟨hskip, htake⟩ := Cursor.skipWhile_extend hend later
      have hskip' : (s.extend later).skipWhile inName = (s.skipWhile inName).extend later := hskip
      have htake' : (s.extend later).rest.takeWhile inName = s.rest.takeWhile inName := htake
      right
      rw [hskip', htake']
      rfl
  · rw [if_neg hname, if_neg hname]
    exact .inr (bracketMove_extend base s c rest later)

theorem codeMove_extend (base : Option Nat) (hangle : '<' ∉ s.rest) (hslash : '/' ∉ s.rest)
    (htemplate : ∀ rest, s.rest = '`' :: rest →
      Streams (readTemplate s.offset) (s.moveTo ⟨rest, s.offset + 1⟩)) (later : List Char) :
    Cut (codeMove base s s.rest) ∨
      codeMove base (s.extend later) (s.extend later).rest =
        (codeMove base s s.rest).extend later := by
  cases hrest : s.rest with
  | nil => exact .inl (.done nofun)
  | cons c rest =>
      rw [hrest] at hangle hslash
      have hc : c ≠ '/' := fun h => hslash (h ▸ List.mem_cons_self)
      have hmove : ∀ (t : Scan) (text : List Char),
          codeMove base t (c :: text) = tokenMove base t c text := by
        intro t text
        simp [codeMove, hc]
      have htext : (s.extend later).rest = c :: (rest ++ later) := by simp [Scan.extend, hrest]
      rw [htext, hmove, hmove]
      apply tokenMove_extend base fun h => hangle (h ▸ List.mem_cons_self)
      exact fun htick => htemplate rest (by rw [hrest, htick])

-- The scan in a substitution, from a scan in front of its `$`.
def Scan.substituted (s : Scan) (text : List Char) : Scan :=
  (s.moveTo ⟨'\x7b' :: text, s.offset + 1⟩).enter '\x7b' text

theorem templateMove_substitution (opened : Nat) (s : Scan) (text : List Char) :
    templateMove opened s ('$' :: '\x7b' :: text) =
      match readCode (some (s.openings.length + 1)) (s.substituted text) with
      | .error halt => .done (.error halt)
      | .ok t => .on t :=
  rfl

theorem templateMove_extend (opened : Nat)
    (hcode : ∀ text, s.rest = '$' :: '\x7b' :: text →
      Streams (readCode (some (s.openings.length + 1))) (s.substituted text)) (later : List Char) :
    Cut (templateMove opened s s.rest) ∨
      templateMove opened (s.extend later) (s.extend later).rest =
        (templateMove opened s s.rest).extend later := by
  cases hrest : s.rest with
  | nil => exact .inl (.done nofun)
  | cons c rest =>
  have htext : (s.extend later).rest = c :: (rest ++ later) := by simp [Scan.extend, hrest]
  rw [htext]
  by_cases htick : c = '`'
  · subst htick
    exact .inr rfl
  by_cases hescape : c = '\\'
  · subst hescape
    cases rest with
    | nil => exact .inl (.on rfl)
    | cons d text => exact .inr rfl
  cases rest with
  | nil =>
      -- a brace behind would open a substitution
      left
      simp only [templateMove, htick, hescape, List.head?_nil, reduceCtorEq, and_false, if_false]
      exact .on rfl
  | cons d text =>
      by_cases hinner : c = '$' ∧ d = '\x7b'
      · obtain ⟨rfl, rfl⟩ := hinner
        rw [List.cons_append, templateMove_substitution, templateMove_substitution]
        rcases (hcode text hrest).cut_or later with ⟨halt, hhalt, hcut⟩ | hsame
        · rw [hhalt]
          exact .inl (.done hcut)
        · right
          have hlater : (s.extend later).substituted (text ++ later) =
            (s.substituted text).extend later := rfl
          have hopenings : (s.extend later).openings = s.openings := rfl
          rw [hlater, hopenings, hsame]
          cases readCode (some (s.openings.length + 1)) (s.substituted text) <;> rfl
      · right
        simp only [List.cons_append, templateMove, htick, hescape, List.head?_cons,
          Option.some.injEq, hinner, if_false]
        rfl

end Turns


theorem streams {source : List Char} (hangle : '<' ∉ source) (hslash : '/' ∉ source) {s : Scan}
    (hs : s.Within source) :
    (∀ base, Streams (readCode base) s) ∧ ∀ opened, Streams (readTemplate opened) s := by
  induction hlength : s.rest.length using Nat.strongRecOn generalizing s with
  | _ limit ih =>
  subst hlength
  have hsub : s.rest ⊆ source := by
    obtain ⟨front, hfront, _⟩ := hs.cursor
    have hsource : source = front ++ s.rest := hfront
    exact hsource ▸ List.subset_append_right front s.rest
  constructor
  · intro base
    refine streams_of_move (readCode_eq base) ?_ ?_ ?_
    · intro t hrest
      rw [readCode_eq, hrest]
      exact nofun
    · refine codeMove_extend base (fun h => hangle (hsub h)) (fun h => hslash (hsub h)) ?_
      intro rest hrest
      have htext : (s.moveTo ⟨rest, s.offset + 1⟩).Within source :=
        hs.next hrest (.refl _)
      exact (ih _ (by simp [hrest]) htext rfl).2 _
    · intro t hmove
      have hturn := (codeTurn (fun u _ => keeps u) base).of_on hmove
      exact (ih _ hturn.1 (within_codeMove hs hmove) rfl).1 base
  · intro opened
    refine streams_of_move (readTemplate_eq opened) ?_ ?_ ?_
    · intro t hrest
      rw [readTemplate_eq, hrest]
      exact nofun
    · refine templateMove_extend opened ?_
      intro text hrest
      have hdollar : (s.moveTo ⟨'\x7b' :: text, s.offset + 1⟩).Within source :=
        hs.next hrest (.refl _)
      have hinner : (s.substituted text).Within source := hdollar.enter (by simp) rfl
      have hshorter : text.length < s.rest.length := by
        rw [hrest, List.length_cons, List.length_cons]
        omega
      exact (ih _ hshorter hinner rfl).1 _
    · intro t hmove
      have hturn := (turn_templateMove (fun u _ => keeps u) opened).length_of_on hmove
      exact (ih _ hturn (within_templateMove hs hmove) rfl).2 opened

theorem toList_unexpectedCloser (bracket : Char) :
    (Problem.unexpectedCloser bracket).message.toList =
      "Unexpected \"".toList ++ [bracket, '"'] := by
  have htext : ∀ text : String, toString text = text := fun _ => rfl
  have hbracket : (toString bracket).toList = [bracket] := String.toList_singleton bracket
  unfold Problem.message
  simp only [String.toList_append, htext, hbracket, List.append_assoc]
  rfl

-- The quotation mark behind the first word tells the message from all others.
theorem eq_unexpectedCloser_of_message {problem : Problem} {bracket : Char}
    (h : problem.message = (Problem.unexpectedCloser bracket).message) :
    problem = .unexpectedCloser bracket := by
  have hlist := (congrArg String.toList h).trans (toList_unexpectedCloser bracket)
  have hmark : problem.message.toList[11]? = some '"' := by
    rw [hlist]
    rfl
  cases problem with
  | unexpectedCloser other =>
      have hsame := (toList_unexpectedCloser other).symm.trans hlist
      simpa using hsame
  | unclosed other line =>
      have hother : ∃ text, (Problem.unclosed other line).message.toList =
          "Unexpected e".toList ++ text := by
        unfold Problem.message
        simp only [String.toList_append, List.append_assoc]
        exact ⟨"nd of file: \"".toList ++ _, rfl⟩
      obtain ⟨text, htext⟩ := hother
      rw [htext] at hmark
      cases hmark
  | _ => exact absurd hmark (by decide)

-- Text that comes later neither repairs a closing bracket out of place nor moves it.
theorem structureIssue?_append_of_closer {source : List Char} (hangle : '<' ∉ source)
    (hslash : '/' ∉ source) {bracket : Char} {offset : Nat}
    (h : (structureIssue? source).map (fun issue => (issue.problem.message, issue.offset)) =
      some (s!"Unexpected \"{bracket}\"", offset)) (later : List Char) :
    (structureIssue? (source ++ later)).map (fun issue => (issue.problem.message, issue.offset)) =
      some (s!"Unexpected \"{bracket}\"", offset) := by
  obtain ⟨⟨problem, place⟩, hissue, htold⟩ := Option.map_eq_some_iff.mp h
  obtain ⟨hmessage, rfl⟩ := Prod.mk.inj htold
  obtain rfl := eq_unexpectedCloser_of_message hmessage
  have hread : readCode none (.start source) =
      .error (.broken ⟨.unexpectedCloser bracket, place⟩) := by
    rw [structureIssue?_eq] at hissue
    cases hresult : readCode none (.start source) with
    | ok t => rw [hresult] at hissue; cases hissue
    | error halt =>
        rw [hresult] at hissue
        cases halt with
        | broken issue => rw [Option.some.inj hissue]
        | finished openings => cases openings <;> cases hissue
  have hstreams := (streams hangle hslash (Scan.within_start source)).1 none
    (by rw [hread]; exact .closer bracket place) later
  have hstart : (Scan.start source).extend later = Scan.start (source ++ later) := rfl
  rw [hread, hstart] at hstreams
  rw [structureIssue?_eq, hstreams]
  rfl

-- A bracket out of place in a substitution, behind a string with an escape.
theorem structureIssue?_append_of_closer_substitution :
    let source := "`é\\`$\x7b[f('it\\'s'))".toList
    ('<' ∉ source ∧ '/' ∉ source ∧
      (structureIssue? source).map (fun issue => (issue.problem.message, issue.offset)) =
        some ("Unexpected \")\"", 18)) ∧
      (structureIssue? (source ++ "]\x7d`".toList)).map
        (fun issue => (issue.problem.message, issue.offset)) = some ("Unexpected \")\"", 18) := by
  have hangle : '<' ∉ "`é\\`$\x7b[f('it\\'s'))".toList := by decide
  have hslash : '/' ∉ "`é\\`$\x7b[f('it\\'s'))".toList := by decide
  have hissue : structureIssue? "`é\\`$\x7b[f('it\\'s'))".toList =
      some ⟨.unexpectedCloser ')', 18⟩ := by
    have hturns : 2 * "`é\\`$\x7b[f('it\\'s'))".toList.length < 50 := by decide
    exact Option.some.inj ((issue?_within hturns).symm.trans (by decide +kernel))
  have htold := congrArg (Option.map fun issue => (issue.problem.message, issue.offset)) hissue
  exact ⟨⟨hangle, hslash, htold⟩, structureIssue?_append_of_closer hangle hslash htold _⟩

end Script

end LivePreview
