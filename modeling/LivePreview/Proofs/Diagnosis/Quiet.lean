import LivePreview.Linking.Graph
import LivePreview.Path
import LivePreview.Proofs.Diagnosis.Frame
import LivePreview.Proofs.Sources.Spelling
import Mathlib.Data.List.TakeWhile

namespace LivePreview

namespace Path

theorem dropRootTokens_dropRepeated (path : List Char) :
    dropRootTokens (Text.dropRepeated "./".toList path) = dropRootTokens path := by
  induction path using Text.dropRepeated.induct "./".toList with
  | case1 path rest hafter hword => cases hword
  | case2 path rest hafter hword ih =>
      rw [Text.dropRepeated, hafter]
      dsimp only
      rw [if_neg hword, ih, Text.after?_eq_some_iff.mp hafter]
      exact (dropRootTokens_append (by decide) rest).symm
  | case3 path hafter =>
      rw [Text.dropRepeated, hafter]

theorem dropRootTokens_dropWhile (path : List Char) :
    dropRootTokens (path.dropWhile (· == '/')) = dropRootTokens path := by
  induction path with
  | nil => rfl
  | cons c path ih =>
      rw [List.dropWhile_cons]
      split
      · rename_i hc
        rw [ih, show c = '/' by simpa using hc]
        exact (dropRootTokens_append (by decide : ['/'] ∈ rootTokens) path).symm
      · rfl

end Path

namespace Location

open Pattern

theorem toString_digits (n : Nat) : Digits (toString n).toList := by
  rw [show (toString n).toList = Nat.toDigits 10 n from Nat.toList_repr]
  exact ⟨Nat.toDigits_ne_nil, fun c hc => Nat.isDigit_of_mem_toDigits (by decide) (by decide) hc⟩

theorem readNumber?_toString {n : Nat} (h : Word.fits 32 n = true) :
    readNumber? (toString n).toList = some n := by
  have hdigits := toString_digits n
  have hdecimal : Text.decimal (toString n).toList = n := by
    rw [show (toString n).toList = Nat.toDigits 10 n from Nat.toList_repr]
    exact Nat.ofDigitChars_toDigits (by decide) (by decide)
  unfold readNumber?
  rw [if_pos ⟨hdigits.1, List.all_eq_true.mpr hdigits.2⟩, hdecimal]
  exact if_pos h

-- An address has a colon behind its scheme.
private theorem colon_mem_of_reads_origin {text : List Char} (h : Reads origin text) :
    ':' ∈ text := by
  obtain ⟨_, _, rfl, _, h⟩ := h.exists_seq
  obtain ⟨_, _, rfl, _, h⟩ := h.exists_seq
  obtain ⟨_, _, rfl, _, h⟩ := h.exists_seq
  obtain ⟨scheme, _, rfl, hscheme, _⟩ := h.exists_seq
  rw [hscheme.eq_chars]
  simp

-- A plain path is as the files know it, but for tokens of the root in front of it.
theorem normalize_barePath {path : String} (h : Plain path.toList) :
    Path.normalize (String.ofList (barePath path.toList)) = Path.normalize path := by
  have horigin : origin.replaceFirst (fun _ => []) path.toList = path.toList := by
    have hnone : origin.find? path.toList = none := by
      refine find?_eq_none fun text hpart hreads => ?_
      exact (h.2 ':' (hpart.subset (colon_mem_of_reads_origin hreads))).2 (by simp)
    rw [replaceFirst, hnone]
    rfl
  have htake : (path.toList.takeWhile fun c => c != '?' && c != '#') = path.toList := by
    refine List.takeWhile_eq_self_iff.mpr fun c hc => ?_
    have hother := (h.2 c hc).2
    simp_all
  unfold Path.normalize barePath
  rw [horigin, htake, String.toList_ofList, Path.dropRootTokens_dropWhile,
    Path.dropRootTokens_dropRepeated]

-- The place behind a quiet message is read back as it was written.
theorem ofMessage_report {message path : List Char} {line column : Nat} (hmessage : Quiet message)
    (hpath : Plain path) (hline : Word.fits 32 line = true) (hcolumn : Word.fits 32 column = true) :
    ofMessage (message ++ "\n    ".toList ++
        frameText path (toString line).toList (toString column).toList) =
      ⟨some (String.ofList (barePath path)), some line, some column⟩ := by
  obtain ⟨found, hfind, hfile, hlineGroup, hcolumnGroup⟩ :=
    find?_report hmessage hpath (toString_digits line) (toString_digits column)
  unfold ofMessage
  rw [hfind]
  simp only [groupFile, groupNumber?, Match.group, hfile, hlineGroup, hcolumnGroup,
    Option.getD_some, Option.bind_some, readNumber?_toString hline, readNumber?_toString hcolumn]

end Location

namespace Location

-- No place in the text, whatever follows it, is the beginning of a stack frame.
def calm : List Char → Bool
  | [] => true
  | c :: text =>
    !(c == 'a' && (text.isEmpty || text.head? == some 't' && text.tail.head?.all Text.isBlank)) &&
      calm text

theorem not_opensFrame_of_calm {c : Char} {text later : List Char}
    (h : calm (c :: text) = true) : opensFrame (c :: text ++ later) = false := by
  rw [Bool.eq_false_iff]
  intro hopens
  obtain ⟨b, rest, heq, hb⟩ := opensFrame_iff.mp hopens
  match text with
  | [] => simp_all [calm]
  | [d] => simp_all [calm]
  | d :: e :: text =>
      simp only [List.cons_append, List.cons.injEq] at heq
      simp [calm, heq, hb] at h

theorem Quiet.nil : Quiet [] := by
  intro text hsuffix hopens
  rw [List.suffix_nil.mp hsuffix] at hopens
  cases hopens

-- A calm text in front of a quiet one leaves it quiet.
theorem Quiet.append {text later : List Char} (hcalm : calm text = true) (h : Quiet later) :
    Quiet (text ++ later) := by
  induction text with
  | nil => exact h
  | cons c text ih =>
      have htext : calm text = true := by
        rw [calm, Bool.and_eq_true] at hcalm
        exact hcalm.2
      intro front hsuffix hopens
      rcases List.suffix_cons_iff.mp hsuffix with hwhole | hsuffix
      · rw [hwhole, List.append_eq, List.cons_append, List.append_assoc, ← List.cons_append,
          not_opensFrame_of_calm hcalm] at hopens
        cases hopens
      · exact ih htext front hsuffix hopens

theorem Quiet.of_calm {text : List Char} (h : calm text = true) : Quiet text := by
  simpa using Quiet.append h .nil

-- A text without a colon is quiet, unless its last word might be the beginning of a frame.
theorem Quiet.of_noColon {text : List Char} (last : Char) (hcolon : ':' ∉ text)
    (hlast : text.getLast? = some last) (hblank : Text.isBlank last = false) (ht : last ≠ 't') :
    Quiet text := by
  intro front hsuffix hopens
  refine ⟨fun hmem => hcolon (hsuffix.subset hmem), last, ?_, hblank⟩
  obtain ⟨b, rest, heq, hb⟩ := opensFrame_iff.mp hopens
  have hne : front ≠ [] := by
    rintro rfl
    cases heq
  have hend : front.getLast? = some last := by
    obtain ⟨before, hbefore⟩ := hsuffix
    have hgetLast := congrArg List.getLast? hbefore
    rw [List.getLast?_append, hlast, List.getLast?_eq_some_getLast hne, Option.some_or] at hgetLast
    rw [List.getLast?_eq_some_getLast hne]
    exact hgetLast
  match front with
  | [] => exact absurd rfl hne
  | [_] => cases heq
  | [c, d] =>
      simp only [List.cons_append, List.cons.injEq] at heq
      rw [heq.2.1] at hend
      exact absurd (Option.some.inj hend).symm ht
  | [c, d, e] =>
      simp only [List.cons_append, List.cons.injEq] at heq
      have he : e = last := Option.some.inj hend
      rw [← heq.2.2.1, he, hblank] at hb
      cases hb
  | c :: d :: e :: f :: front =>
      rw [List.getLast?_cons_cons, List.getLast?_cons_cons, List.getLast?_cons_cons] at hend
      exact List.mem_of_getLast? hend

-- A word without blanks between quotation marks is calm.
theorem calm_quoted {text : List Char} (h : ∀ c ∈ text, Text.isBlank c = false) :
    calm (text ++ ['"']) = true := by
  induction text with
  | nil => rfl
  | cons c text ih =>
      obtain ⟨_, htext⟩ := List.forall_mem_cons.mp h
      rw [List.cons_append, calm, ih htext]
      match text with
      | [] => simp
      | [d] => simp [show Text.isBlank '"' = false by decide]
      | d :: e :: text =>
          have he := htext e (by simp)
          simp [he]

end Location

namespace Linking

open Location

theorem digits_noColon (n : Nat) : ':' ∉ (toString n).toList := by
  intro hmem
  have := (toString_digits n).2 ':' hmem
  revert this
  decide

private theorem quiet_line (line : Nat) :
    Location.Quiet (" opened on line ".toList ++ (toString line).toList ++
      " is never closed".toList) := by
  refine .of_noColon 'd' ?_ ?_ (by decide) (by decide)
  · simp only [List.mem_append, not_or]
    exact ⟨⟨by decide, digits_noColon line⟩, by decide⟩
  · rw [List.getLast?_append, show " is never closed".toList.getLast? = some 'd' by decide,
      Option.some_or]

private theorem toList_toString_char (c : Char) : (toString c).toList = [c] :=
  String.toList_singleton c

private theorem toString_string (s : String) : toString s = s := rfl

theorem quiet_broken (problem : Script.Problem) : Location.Quiet problem.message.toList := by
  have hquoted : ∀ bracket, calm [bracket, '"'] = true := by simp [calm]
  cases problem with
  | unexpectedCloser bracket =>
      have h : (Script.Problem.unexpectedCloser bracket).message.toList =
          "Unexpected \"".toList ++ [bracket, '"'] := by
        unfold Script.Problem.message
        simp only [String.toList_append, toList_toString_char, toString_string, List.append_assoc]
        rfl
      rw [h]
      exact .append (by decide +kernel) (.of_calm (hquoted bracket))
  | unterminatedString => exact .of_calm (by decide)
  | unterminatedTemplate => exact .of_calm (by decide)
  | unterminatedComment => exact .of_calm (by decide)
  | unclosed bracket line =>
      have h : (Script.Problem.unclosed bracket line).message.toList =
          "Unexpected end of file: \"".toList ++ ([bracket, '"'] ++
            (" opened on line ".toList ++ (toString line).toList ++
              " is never closed".toList)) := by
        unfold Script.Problem.message
        simp only [String.toList_append, toList_toString_char, toString_string, List.append_assoc]
        rfl
      rw [h]
      exact .append (by decide +kernel) (.append (hquoted bracket) (quiet_line line))

private theorem quiet_place (line column : Nat) :
    Location.Quiet ("at line ".toList ++ (toString line).toList ++ " column ".toList ++
      (toString column).toList) := by
  obtain ⟨hne, hdigits⟩ := toString_digits column
  have hlast := hdigits _ (List.getLast_mem hne)
  refine .of_noColon ((toString column).toList.getLast hne) ?_ ?_
    (not_blank_of_digit hlast) ?_
  · simp only [List.mem_append, not_or]
    exact ⟨⟨⟨by decide, digits_noColon line⟩, by decide⟩, digits_noColon column⟩
  · rw [List.getLast?_append, List.getLast?_eq_some_getLast hne, Option.some_or]
  · intro ht
    rw [ht] at hlast
    revert hlast
    decide

theorem quiet_invalidData (error : Json.Error) :
    Location.Quiet (Problem.invalidData error).message.toList := by
  have h : (Problem.invalidData error).message.toList =
      "Invalid JSON: ".toList ++ ((error.fault.message.toList ++ [' ']) ++ ("at line ".toList ++
        (toString error.line).toList ++ " column ".toList ++ (toString error.column).toList)) := by
    unfold Problem.message Json.Error.message
    simp only [String.toList_append, toString_string, List.append_assoc]
    rfl
  have hfault : calm (error.fault.message.toList ++ [' ']) = true := by
    cases error.fault <;> decide +kernel
  rw [h]
  exact .append (by decide +kernel) (.append hfault (quiet_place _ _))

theorem quiet_undeclared {component : String} (hcolon : ':' ∉ component.toList) :
    Location.Quiet (Problem.undeclared component).message.toList := by
  have h : (Problem.undeclared component).message.toList =
      "ReferenceError: ".toList ++ (component.toList ++ " is not defined".toList) := by
    unfold Problem.message
    simp only [String.toList_append, toString_string, List.append_assoc]
  rw [h]
  refine .append (by decide) (.of_noColon 'd' ?_ ?_ (by decide) (by decide))
  · rw [List.mem_append, not_or]
    exact ⟨hcolon, by decide⟩
  · rw [List.getLast?_append, show " is not defined".toList.getLast? = some 'd' by decide,
      Option.some_or]

theorem quiet_missingExport {target name : String} (htarget : Plain target.toList)
    (hcolon : ':' ∉ name.toList) :
    Location.Quiet (Problem.missingExport target name).message.toList := by
  have h : (Problem.missingExport target name).message.toList =
      "No matching export in \"".toList ++ ((target.toList ++ ['"']) ++
        (" for import \"".toList ++ (name.toList ++ ['"']))) := by
    unfold Problem.message
    simp only [String.toList_append, toString_string, List.append_assoc]
    rfl
  rw [h]
  refine .append (by decide) (.append (calm_quoted fun c hc => (htarget.2 c hc).1)
    (.append (by decide) (.of_noColon '"' ?_ (by simp) (by decide) (by decide))))
  simpa using hcolon

end Linking

end LivePreview
