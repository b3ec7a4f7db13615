import LivePreview.Proofs.Diagnosis.Remedies
import LivePreview.Proofs.Diagnosis.Undefined
import LivePreview.Proofs.Pattern.Reading
import LivePreview.Proofs.Pattern.Taking
import LivePreview.Proofs.Script.Issues
import LivePreview.Proofs.Text.Infix

namespace LivePreview

namespace Pattern

variable {pattern : Pattern} {source text later : List Char} {groups : List (Nat × List Char)}

theorem Takes.occurs (h : pattern.Takes (.start source) text later groups)
    (hsource : source = text ++ later) : pattern.Occurs source := by
  obtain ⟨captures, _, hmatch⟩ := h.exists_matchAt hsource
  exact ⟨.start source, ⟨[], rfl, rfl, rfl⟩, by rw [Matches, hmatch]; rfl⟩

-- A literal text is found where it stands.
theorem isSome_find?_text_iff {word : String} :
    ((Pattern.text word).find? source).isSome = true ↔ word.toList <:+: source := by
  constructor
  · intro hfind
    by_contra hnot
    have hnone : (Pattern.text word).find? source = none :=
      find?_eq_none fun part hpart hreads => hnot (Reads.eq_chars hreads ▸ hpart)
    rw [hnone] at hfind
    cases hfind
  · rintro ⟨front, behind, rfl⟩
    rw [isSome_find?_iff, List.append_assoc]
    let spot : Spot := ⟨front.getLast?, word.toList ++ behind, Text.byteLength front⟩
    refine ⟨spot, ⟨front, rfl, rfl, rfl⟩, ?_⟩
    have htakes : (Pattern.text word).Takes spot word.toList behind [] := takes_text word
    obtain ⟨captures, _, hmatch⟩ := htakes.exists_matchAt rfl
    rw [Matches, hmatch]
    rfl

end Pattern

namespace Diagnosis.Form

open Pattern

theorem occurs_unterminated {kind : String} (hkind : kind = "string" ∨ kind = "template")
    (later : List Char) :
    unterminated.Occurs ("Unterminated ".toList ++ kind.toList ++ later) := by
  have hform : Implies (.seq (.text "Unterminated ") (.text kind)) unterminated := by
    refine (Implies.refl _).seq (Implies.seq_maybe ?_ _)
    rcases hkind with rfl | rfl
    · exact (Implies.refl _).left
    · exact (Implies.refl _).right
  exact (((takes_text _).seq (takes_text _)).occurs rfl).of_implies hform

theorem occurs_unexpectedEnd (later : List Char) :
    unexpectedEnd.Occurs ("Unexpected end of ".toList ++ "file".toList ++ later) := by
  have hform : Implies (.seq (.text "Unexpected end of ") (.text "file")) unexpectedEnd :=
    (Implies.refl _).seq (Implies.refl _).right
  exact (((takes_text _).seq (takes_text _)).occurs rfl).of_implies hform

theorem occurs_strayToken {token : List Char} (hne : token ≠ []) (htoken : '"' ∉ token)
    (later : List Char) :
    strayToken.Occurs ("Unexpected ".toList ++ (['"'] ++ (token ++ ['"'])) ++ later) := by
  have hform : Implies (.seq (.text "Unexpected ") (.all [.char '"', untilDouble 2, .char '"']))
      strayToken :=
    (Implies.refl _).seq (Implies.refl _).right
  have htakes {spot : Spot} {behind : List Char} :
      (untilDouble 2).Takes spot token ('"' :: behind) [(2, token)] := by
    have hquote (c : Char) : (CharClass.not (.ofList "\"".toList)).has c = !(c == '"') := rfl
    refine (takes_plus hne (fun c hc => ?_) ?_).group 2
    · rw [hquote, beq_false_of_ne (ne_of_mem_of_not_mem hc htoken)]
      rfl
    · rintro c ⟨rfl⟩
      exact hquote '"'
  exact (((takes_text _).seq
    ((takes_char _).seq (htakes.seq (takes_char _)))).occurs rfl).of_implies hform

end Diagnosis.Form

namespace Classifier

section Rules

variable {first later : List Rule} {raw : List Char}

theorem classify_of_some {classifier : Classifier} {raw : String} {rule : Rule}
    {found : Pattern.Match} (h : classifier.firstMatch? raw.toList = some (rule, found)) :
    (classifier.classify raw).kind = rule.kind ∧
      (classifier.classify raw).isFixable =
        (rule.kind.isFixable && Diagnosis.fixThreshold.le rule.confidence) := by
  unfold classify Diagnosis.isFixable
  rw [h]
  exact ⟨rfl, rfl⟩

theorem classify_of_none {classifier : Classifier} {raw : String}
    (h : classifier.firstMatch? raw.toList = none) :
    (classifier.classify raw).kind = .unknown ∧
      (classifier.classify raw).isFixable = false := by
  unfold classify Diagnosis.isFixable
  rw [h]
  exact ⟨rfl, rfl⟩

-- Rules that match nothing have no say.
theorem firstMatch?_append (h : ∀ rule ∈ first, rule.form.find? raw = none) :
    (mk (first ++ later)).firstMatch? raw = (mk later).firstMatch? raw := by
  have hnone : first.findSome? (fun rule => (rule.form.find? raw).map fun found =>
      (rule, found)) = none :=
    List.findSome?_eq_none_iff.mpr fun rule hrule => by rw [h rule hrule]; rfl
  unfold firstMatch?
  rw [List.findSome?_append, hnone, Option.none_or]

theorem mem_of_firstMatch? {classifier : Classifier} {rule : Rule} {found : Pattern.Match}
    (h : classifier.firstMatch? raw = some (rule, found)) :
    rule ∈ classifier.rules ∧ rule.form.find? raw = some found := by
  obtain ⟨other, hmem, hmap⟩ := List.exists_of_findSome?_eq_some h
  obtain ⟨same, hfind, heq⟩ := Option.map_eq_some_iff.mp hmap
  obtain ⟨rfl, rfl⟩ := Prod.mk.inj heq
  exact ⟨hmem, hfind⟩

-- Where one of the first rules matches, one of them decides.
theorem exists_firstMatch?_append (h : ∃ rule ∈ first, (rule.form.find? raw).isSome = true) :
    ∃ rule ∈ first, ∃ found, (mk (first ++ later)).firstMatch? raw = some (rule, found) := by
  obtain ⟨rule, hrule, hfind⟩ := h
  have hsome : ((mk first).firstMatch? raw).isSome = true :=
    List.findSome?_isSome_iff.mpr ⟨rule, hrule, by rwa [Option.isSome_map]⟩
  obtain ⟨⟨other, found⟩, hfirst⟩ := Option.isSome_iff_exists.mp hsome
  refine ⟨other, (mem_of_firstMatch? hfirst).1, found, ?_⟩
  unfold firstMatch? at *
  rw [List.findSome?_append, hfirst, Option.some_or]

end Rules

end Classifier

namespace Script

open Diagnosis.Form
open Undefined (standing)

-- What is reported of an issue of a file.
def Issue.report (issue : Issue) (path : String) (source : List Char) : String :=
  (BundleError.ofMessage (.ofFinding (.at (.broken issue.problem) path source issue.offset))).raw

-- The problems of which little more is told than that they are there.
def briefProblems : List Problem :=
  [.unexpectedCloser ')', .unexpectedCloser ']', .unexpectedCloser '\x7d', .unterminatedString,
    .unterminatedTemplate, .unterminatedComment]

theorem Issue.ShowsIn.problem_cases {source : List Char} {issue : Issue}
    (h : issue.ShowsIn source) :
    issue.problem ∈ briefProblems ∨
      ∃ bracket ∈ ['(', '[', '\x7b'], ∃ line, issue.problem = .unclosed bracket line := by
  cases h with
  | closer hbracket _ =>
      simp only [List.mem_cons, List.not_mem_nil, or_false] at hbracket
      rcases hbracket with rfl | rfl | rfl <;> exact .inl (by simp [briefProblems])
  | unclosed hopening _ => exact .inr ⟨_, hopening.1, _, rfl⟩
  | _ => exact .inl (by simp [briefProblems])

-- Texts of errors that are looked for before those about the form of a source text.
def earlierTexts : List String :=
  ["does not provide an export named ", "No matching export in \"", "Module ",
    "Cannot find module", "Could not resolve", "Failed to resolve import", "Cannot find name ",
    "is not ", "React Hook ", "Invalid hook call", "Rendered ", "Cannot read propert", "Type '",
    "Property '"]

-- Texts of errors about the form of a source text, but for those that say what they are.
def formTexts : List String := ["Unterminated string", "Unterminated template", "Unexpected "]

-- What is told of a bracket that is never closed, before its line and behind it.
def unclosedStart (bracket : Char) : List Char :=
  "Unexpected end of file: \"".toList ++ bracket :: "\" opened on line ".toList

def unclosedEnd : List Char := " is never closed".toList

theorem toList_unclosed (bracket : Char) (line : Nat) :
    (Problem.unclosed bracket line).message.toList =
      unclosedStart bracket ++ ((toString line).toList ++ unclosedEnd) := by
  have htext : ∀ text : String, toString text = text := fun _ => rfl
  have hbracket : (toString bracket).toList = [bracket] := String.toList_singleton bracket
  unfold Problem.message
  simp only [String.toList_append, htext, hbracket, List.append_assoc]
  rfl

section Report

variable {source place : List Char} {issue : Issue}

theorem not_infix_of_brief {problem : Problem} (hproblem : problem ∈ briefProblems)
    (hplace : ∀ c ∈ place, Text.isBlank c = false) {word : String} (hword : word ∈ earlierTexts) :
    ¬word.toList <:+: problem.message.toList ++ (standing ++ place) := by
  have hclear : ∀ problem ∈ briefProblems, ∀ word ∈ earlierTexts,
      Text.clear word.toList (problem.message.toList ++ standing) = true ∧
        word.toList.any Text.isBlank = true := by
    decide
  obtain ⟨hfront, hblank⟩ := hclear problem hproblem word hword
  rw [← List.append_assoc]
  exact Text.not_infix_of_clear hfront (List.any_eq_true.mp hblank) hplace

theorem not_infix_of_unclosed {bracket : Char} (hbracket : bracket ∈ ['(', '[', '\x7b'])
    (line : Nat) (hplace : ∀ c ∈ place, Text.isBlank c = false) {word : String}
    (hword : word ∈ earlierTexts) :
    ¬word.toList <:+: (Problem.unclosed bracket line).message.toList ++ (standing ++ place) := by
  have hall : ∀ bracket ∈ ['(', '[', '\x7b'], ∀ word ∈ earlierTexts,
      ¬word.toList <:+: unclosedStart bracket ∧
        Text.clear word.toList (unclosedEnd ++ standing) = true ∧
        word.toList.any Text.isBlank = true ∧ word.toList.any Char.isDigit = false := by
    decide
  obtain ⟨hopened, hleft, hblank, hdigit⟩ := hall bracket hbracket word hword
  obtain ⟨hne, hdigits⟩ := Location.toString_digits line
  obtain ⟨digit, digits, hline⟩ := List.exists_cons_of_ne_nil hne
  have hother : ∀ c ∈ digit :: digits, c ∉ word.toList := fun c hc hmem =>
    List.any_eq_false.mp hdigit c hmem (hdigits c (hline ▸ hc))
  rw [toList_unclosed, hline]
  intro hwithin
  simp only [List.append_assoc, List.cons_append] at hwithin
  have hdigit := hother digit List.mem_cons_self
  rcases Text.infix_of_infix_append_cons hdigit hwithin with hwithin | hwithin
  · exact hopened hwithin
  · have hbehind := Text.infix_of_disjoint hwithin fun c hc => hother c (List.mem_cons_of_mem _ hc)
    rw [← List.append_assoc] at hbehind
    exact Text.not_infix_of_clear hleft (List.any_eq_true.mp hblank) hplace hbehind

-- No rule about something else than the form of a source text comes first.
theorem find?_earlier (h : issue.ShowsIn source) (hplace : ∀ c ∈ place, Text.isBlank c = false) :
    ∀ rule ∈ Rule.imports ++ Rule.hooks ++ Rule.types,
      rule.form.find? (issue.problem.message.toList ++ (standing ++ place)) = none := by
  have hholds : ∀ rule ∈ Rule.imports ++ Rule.hooks ++ Rule.types,
      rule.form.holds earlierTexts = true := by
    decide
  intro rule hrule
  refine Pattern.find?_eq_none_of_holds (hholds rule hrule) fun word hword => ?_
  rcases h.problem_cases with hbrief | ⟨bracket, hbracket, line, hunclosed⟩
  · exact not_infix_of_brief hbrief hplace hword
  · rw [hunclosed]
    exact not_infix_of_unclosed hbracket line hplace hword

-- Each problem but an unterminated comment has a form of its own.
theorem exists_occurs (h : issue.ShowsIn source)
    (hcomment : issue.problem ≠ .unterminatedComment) (later : List Char) :
    ∃ form ∈ [unterminated, unexpectedEnd, strayToken],
      form.Occurs (issue.problem.message.toList ++ later) := by
  cases h with
  | @closer bracket _ hbracket _ =>
      have hmessage : ∀ bracket ∈ [')', ']', '\x7d'],
          (Problem.unexpectedCloser bracket).message.toList =
            "Unexpected ".toList ++ (['"'] ++ ([bracket] ++ ['"'])) ∧ '"' ∉ [bracket] := by
        decide
      obtain ⟨hmessage, hquote⟩ := hmessage bracket hbracket
      refine ⟨strayToken, by simp, ?_⟩
      rw [hmessage]
      exact occurs_strayToken (List.cons_ne_nil bracket []) hquote later
  | string _ _ =>
      have hmessage : Problem.unterminatedString.message.toList =
          "Unterminated ".toList ++ "string".toList ++ " literal".toList := by
        decide
      refine ⟨unterminated, by simp, ?_⟩
      rw [hmessage, List.append_assoc]
      exact occurs_unterminated (.inl rfl) _
  | template _ =>
      have hmessage : Problem.unterminatedTemplate.message.toList =
          "Unterminated ".toList ++ "template".toList ++ " literal".toList := by
        decide
      refine ⟨unterminated, by simp, ?_⟩
      rw [hmessage, List.append_assoc]
      exact occurs_unterminated (.inr rfl) _
  | comment _ => exact absurd rfl hcomment
  | @unclosed opening place hopening _ =>
      have hstart : ∀ bracket ∈ ['(', '[', '\x7b'],
          "Unexpected end of ".toList ++ "file".toList <+: unclosedStart bracket := by
        decide
      obtain ⟨rest, hrest⟩ := hstart opening.bracket hopening.1
      refine ⟨unexpectedEnd, by simp, ?_⟩
      dsimp only
      rw [toList_unclosed, ← hrest, List.append_assoc, List.append_assoc]
      exact occurs_unexpectedEnd _

-- An unterminated comment has none of these forms.
theorem find?_comment (hplace : ∀ c ∈ place, Text.isBlank c = false) :
    ∀ form ∈ [unterminated, unexpectedEnd, strayToken],
      form.find? (Problem.unterminatedComment.message.toList ++ (standing ++ place)) = none := by
  have hholds : ∀ form ∈ [unterminated, unexpectedEnd, strayToken],
      form.holds formTexts = true := by
    decide
  have hclear : ∀ word ∈ formTexts,
      Text.clear word.toList (Problem.unterminatedComment.message.toList ++ standing) = true ∧
        word.toList.any Text.isBlank = true := by
    decide
  intro form hform
  refine Pattern.find?_eq_none_of_holds (hholds form hform) fun word hword => ?_
  obtain ⟨hfront, hblank⟩ := hclear word hword
  rw [← List.append_assoc]
  exact Text.not_infix_of_clear hfront (List.any_eq_true.mp hblank) hplace

end Report

-- The place in a file, as a report tells it.
def placeText (path : String) (place : Text.Place) : List Char :=
  path.toList ++ ':' :: ((toString place.line).toList ++ ':' :: (toString place.column).toList)

theorem placeText_solid {path : String} (hpath : ∀ c ∈ path.toList, Text.isBlank c = false)
    (place : Text.Place) : ∀ c ∈ placeText path place, Text.isBlank c = false := by
  intro c hc
  simp only [placeText, List.mem_append, List.mem_cons] at hc
  rcases hc with hc | rfl | hc | rfl | hc
  · exact hpath c hc
  · decide
  · exact Location.not_blank_of_digit ((Location.toString_digits _).2 c hc)
  · decide
  · exact Location.not_blank_of_digit ((Location.toString_digits _).2 c hc)

-- The report of a comment says that something is a syntax error only if the path does.
theorem infix_comment_iff (path : String) (place : Text.Place) :
    "SyntaxError".toList <:+:
        Problem.unterminatedComment.message.toList ++ (standing ++ placeText path place) ↔
      "SyntaxError".toList <:+: path.toList := by
  have hstanding : standing = "\n    at".toList ++ [' '] := by decide
  have hword : ¬"SyntaxError".toList <:+:
      Problem.unterminatedComment.message.toList ++ "\n    at".toList := by
    decide
  have hother : ' ' ∉ "SyntaxError".toList ∧ ':' ∉ "SyntaxError".toList ∧
      'S' ∈ "SyntaxError".toList := by
    decide
  obtain ⟨hblank, hcolon, hletter⟩ := hother
  constructor
  · intro h
    rw [hstanding, List.append_assoc, ← List.append_assoc, List.singleton_append] at h
    have hplace := (Text.infix_of_infix_append_cons hblank h).resolve_left hword
    refine (Text.infix_of_infix_append_cons hcolon hplace).resolve_right fun hnumbers => ?_
    have hdigits (n : Nat) : 'S' ∉ (toString n).toList := fun hmem => by
      have := (Location.toString_digits n).2 'S' hmem
      revert this
      decide
    rcases List.mem_append.mp (hnumbers.subset hletter) with hmem | hmem
    · exact hdigits _ hmem
    · exact hdigits _ ((List.mem_cons.mp hmem).resolve_left (by decide))
  · rintro ⟨front, later, hpath⟩
    exact List.IsInfix.trans ⟨front, later, hpath⟩
      ⟨Problem.unterminatedComment.message.toList ++ standing,
        ':' :: ((toString place.line).toList ++ ':' :: (toString place.column).toList),
        by simp [placeText]⟩

section Classify

variable {source : List Char} {issue : Issue} {path : String}

-- An issue is reported at its place.
theorem exists_report (h : issue.ShowsIn source) (path : String) :
    ∃ place, Text.placeAt? source issue.offset = some place ∧
      issue.report path source =
        s!"{issue.problem.message}\n    at {path}:{place.line}:{place.column}" := by
  obtain ⟨place, hplace⟩ := h.exists_placeAt?
  refine ⟨place, hplace, ?_⟩
  unfold Issue.report Linking.Finding.at
  rw [hplace]
  rfl

theorem toList_report {place : Text.Place}
    (h : issue.report path source =
      s!"{issue.problem.message}\n    at {path}:{place.line}:{place.column}") :
    (issue.report path source).toList =
      issue.problem.message.toList ++ (standing ++ placeText path place) := by
  have htext : ∀ text : String, toString text = text := fun _ => rfl
  rw [h]
  simp only [String.toList_append, htext, List.append_assoc]
  rfl

-- Rules about something else have no say in what a report is about.
theorem firstMatch?_report (h : issue.ShowsIn source)
    (hpath : ∀ c ∈ path.toList, Text.isBlank c = false) :
    Classifier.usual.firstMatch? (issue.report path source).toList =
      (Classifier.mk (Rule.sourceForm ++ (Rule.running ++ Rule.styles))).firstMatch?
        (issue.report path source).toList := by
  obtain ⟨place, _, hreport⟩ := exists_report h path
  have hrules : Classifier.usual = .mk (Rule.imports ++ Rule.hooks ++ Rule.types ++
      (Rule.sourceForm ++ (Rule.running ++ Rule.styles))) := by
    simp only [Classifier.usual, Rule.usual, List.append_assoc]
  rw [hrules, toList_report hreport]
  exact Classifier.firstMatch?_append (find?_earlier h (placeText_solid hpath place))

-- A rule about the form of a source text matches the report.
def Told (report : String) : Prop :=
  ∃ rule ∈ Rule.sourceForm, (rule.form.find? report.toList).isSome = true

theorem told_iff_exists_form {report : String} :
    Told report ↔ ∃ form ∈ [unterminated, unexpectedEnd, strayToken, .text "SyntaxError"],
      (form.find? report.toList).isSome = true := by
  have hforms : Rule.sourceForm.map (·.form) =
      [unterminated, unexpectedEnd, strayToken, .text "SyntaxError"] := rfl
  unfold Told
  rw [← hforms]
  simp only [List.mem_map, exists_exists_and_eq_and]

theorem told_iff (h : issue.ShowsIn source) (hpath : ∀ c ∈ path.toList, Text.isBlank c = false) :
    Told (issue.report path source) ↔
      issue.problem ≠ .unterminatedComment ∨ "SyntaxError".toList <:+: path.toList := by
  obtain ⟨place, _, hreport⟩ := exists_report h path
  rw [told_iff_exists_form, toList_report hreport]
  by_cases hcomment : issue.problem = .unterminatedComment
  · rw [hcomment, ← infix_comment_iff path place, ← Pattern.isSome_find?_text_iff]
    have hnone := find?_comment (placeText_solid hpath place)
    simp only [List.forall_mem_cons] at hnone
    obtain ⟨hunterminated, hend, htoken, _⟩ := hnone
    simp [hunterminated, hend, htoken]
  · refine iff_of_true ?_ (.inl hcomment)
    obtain ⟨form, hform, hoccurs⟩ := exists_occurs h hcomment (standing ++ placeText path place)
    have hmem : form ∈ [unterminated, unexpectedEnd, strayToken] ++ [.text "SyntaxError"] :=
      List.mem_append_left _ hform
    exact ⟨form, hmem, Pattern.isSome_find?_iff.mpr hoccurs⟩

theorem classify_of_told (h : issue.ShowsIn source)
    (hpath : ∀ c ∈ path.toList, Text.isBlank c = false) (htold : Told (issue.report path source)) :
    (Classifier.usual.classify (issue.report path source)).kind = .syntaxError ∧
      (Classifier.usual.classify (issue.report path source)).isFixable = true := by
  have hrules : ∀ rule ∈ Rule.sourceForm, rule.kind = .syntaxError ∧
      (rule.kind.isFixable && Diagnosis.fixThreshold.le rule.confidence) = true := by
    decide +kernel
  obtain ⟨rule, hrule, found, hfirst⟩ := Classifier.exists_firstMatch?_append htold
  obtain ⟨hkind, hfixable⟩ :=
    Classifier.classify_of_some ((firstMatch?_report h hpath).trans hfirst)
  rw [hkind, hfixable]
  exact hrules rule hrule

-- Where no rule about the form of a source text matches, the later rules decide.
theorem firstMatch?_of_not_told (h : issue.ShowsIn source)
    (hpath : ∀ c ∈ path.toList, Text.isBlank c = false)
    (htold : ¬Told (issue.report path source)) :
    Classifier.usual.firstMatch? (issue.report path source).toList =
      (Classifier.mk (Rule.running ++ Rule.styles)).firstMatch?
        (issue.report path source).toList := by
  have hnone : ∀ rule ∈ Rule.sourceForm,
      rule.form.find? (issue.report path source).toList = none := fun rule hrule =>
    Option.not_isSome_iff_eq_none.mp fun hsome => htold ⟨rule, hrule, hsome⟩
  exact (firstMatch?_report h hpath).trans (Classifier.firstMatch?_append hnone)

theorem classify_of_not_told (h : issue.ShowsIn source)
    (hpath : ∀ c ∈ path.toList, Text.isBlank c = false)
    (htold : ¬Told (issue.report path source)) :
    (Classifier.usual.classify (issue.report path source)).kind ≠ .syntaxError ∧
      (Classifier.usual.classify (issue.report path source)).isFixable = false := by
  have hrules : ∀ rule ∈ Rule.running ++ Rule.styles, rule.kind ≠ .syntaxError ∧
      rule.kind.isFixable = false := by
    decide
  have hfirst := firstMatch?_of_not_told h hpath htold
  cases hmatch : Classifier.usual.firstMatch? (issue.report path source).toList with
  | none =>
      obtain ⟨hkind, hfixable⟩ := Classifier.classify_of_none hmatch
      rw [hkind, hfixable]
      exact ⟨by decide, rfl⟩
  | some first =>
      obtain ⟨rule, found⟩ := first
      obtain ⟨hkind, hfixable⟩ := Classifier.classify_of_some hmatch
      obtain ⟨hother, hunfixable⟩ := hrules rule
        (Classifier.mem_of_firstMatch? (hfirst.symm.trans hmatch)).1
      rw [hkind, hfixable, hunfixable]
      exact ⟨hother, rfl⟩

end Classify

end Script

namespace Classifier

open Script

-- What is wrong with the structure of a script is reported at its place in a file, whose path holds
-- no blanks, and is diagnosed as an error of form, on which an attempt at repair may be spent. Only
-- of a comment that does not end no rule tells, unless the path itself names a syntax error.
theorem classify_issue {source : List Char} {issue : Issue} {path : String}
    (h : structureIssue? source = some issue)
    (hpath : ∀ c ∈ path.toList, Text.isBlank c = false) :
    (∃ place, Text.placeAt? source issue.offset = some place ∧
      issue.report path source =
        s!"{issue.problem.message}\n    at {path}:{place.line}:{place.column}") ∧
    ((usual.classify (issue.report path source)).kind = .syntaxError ↔
      issue.problem ≠ .unterminatedComment ∨ "SyntaxError".toList <:+: path.toList) ∧
    ((usual.classify (issue.report path source)).isFixable = true ↔
      issue.problem ≠ .unterminatedComment ∨ "SyntaxError".toList <:+: path.toList) := by
  have hshows := showsIn_of_structureIssue? h
  refine ⟨exists_report hshows path, ?_⟩
  rw [← told_iff hshows hpath]
  by_cases htold : Told (issue.report path source)
  · obtain ⟨hkind, hfixable⟩ := classify_of_told hshows hpath htold
    exact ⟨iff_of_true hkind htold, iff_of_true hfixable htold⟩
  · obtain ⟨hkind, hfixable⟩ := classify_of_not_told hshows hpath htold
    exact ⟨iff_of_false hkind htold, iff_of_false (by simp [hfixable]) htold⟩

theorem classify_issue_string :
    structureIssue? "\"".toList = some ⟨.unterminatedString, 0⟩ ∧
      (usual.classify (Issue.report ⟨.unterminatedString, 0⟩ "src/main.js" "\"".toList)).kind =
        .syntaxError ∧
      (usual.classify (Issue.report ⟨.unterminatedString, 0⟩ "src/main.js"
        "\"".toList)).isFixable = true := by
  have hissue : structureIssue? "\"".toList = some ⟨.unterminatedString, 0⟩ := by decide +kernel
  have hpath : ∀ c ∈ "src/main.js".toList, Text.isBlank c = false := by decide
  have hproblem : Problem.unterminatedString ≠ .unterminatedComment := by decide
  obtain ⟨_, hkind, hfixable⟩ := classify_issue hissue hpath
  exact ⟨hissue, hkind.mpr (.inl hproblem), hfixable.mpr (.inl hproblem)⟩

-- A comment that does not end is found, but no rule tells it.
theorem classify_issue_comment :
    structureIssue? "/*".toList = some ⟨.unterminatedComment, 0⟩ ∧
      Issue.report ⟨.unterminatedComment, 0⟩ "main.js" "/*".toList =
        "Unterminated comment\n    at main.js:1:1" ∧
      (usual.classify (Issue.report ⟨.unterminatedComment, 0⟩ "main.js" "/*".toList)).kind =
        .unknown ∧
      (usual.classify (Issue.report ⟨.unterminatedComment, 0⟩ "main.js"
        "/*".toList)).isFixable = false := by
  have hissue : structureIssue? "/*".toList = some ⟨.unterminatedComment, 0⟩ := by decide +kernel
  have hreport : Issue.report ⟨.unterminatedComment, 0⟩ "main.js" "/*".toList =
      "Unterminated comment\n    at main.js:1:1" := by
    decide
  have hshows := showsIn_of_structureIssue? hissue
  have hpath : ∀ c ∈ "main.js".toList, Text.isBlank c = false := by decide
  have htold : ¬Told (Issue.report ⟨.unterminatedComment, 0⟩ "main.js" "/*".toList) := by
    rw [told_iff hshows hpath]
    decide
  have hlater : (Classifier.mk (Rule.running ++ Rule.styles)).firstMatch?
      "Unterminated comment\n    at main.js:1:1".toList = none := by
    rw [← Option.isNone_iff_eq_none]
    decide +kernel
  have hnone := firstMatch?_of_not_told hshows hpath htold
  rw [hreport, hlater, ← hreport] at hnone
  exact ⟨hissue, hreport, classify_of_none hnone⟩

end Classifier

end LivePreview
