import LivePreview.Diagnosis.Remedy
import LivePreview.Linking.Graph
import LivePreview.Proofs.Diagnosis.KnownNames
import LivePreview.Proofs.Diagnosis.Report
import LivePreview.Proofs.Text.Infix
import LivePreview.Proofs.Text.Trimming
import Mathlib.Data.List.Infix

namespace LivePreview

namespace Text

-- The word begins nowhere in the text, whatever follows the text.
def clear (word : List Char) : List Char → Bool
  | [] => true
  | c :: text =>
    !word.isPrefixOf (c :: text) && !(c :: text).isPrefixOf word && clear word text

-- A word with a blank does not reach from such a text into one without blanks.
theorem not_infix_of_clear {word front later : List Char} (hfront : clear word front = true)
    (hword : ∃ c ∈ word, isBlank c = true) (hlater : ∀ c ∈ later, isBlank c = false) :
    ¬word <:+: front ++ later := by
  obtain ⟨b, hb, hblank⟩ := hword
  induction front with
  | nil =>
      intro hwithin
      rw [hlater b (hwithin.subset hb)] at hblank
      cases hblank
  | cons c front ih =>
      simp only [clear, Bool.and_eq_true, Bool.not_eq_true'] at hfront
      obtain ⟨⟨hstarts, hreaches⟩, hfront⟩ := hfront
      intro hwithin
      rcases List.infix_cons_iff.mp hwithin with hbegins | hwithin
      · rcases List.prefix_or_prefix_of_prefix hbegins (List.prefix_append (c :: front) later)
          with h | h
        · rw [List.isPrefixOf_iff_prefix.mpr h] at hstarts
          cases hstarts
        · rw [List.isPrefixOf_iff_prefix.mpr h] at hreaches
          cases hreaches
      · exact ih hfront hwithin

-- The word up to its first blank.
def firstWord (text : List Char) : List Char := text.takeWhile fun c => !isBlank c

private theorem firstWord_eq_of_begins {first second : List Char} (hbegins : first <+: second)
    (hblank : ∃ c ∈ first, isBlank c = true) : firstWord second = firstWord first := by
  obtain ⟨later, rfl⟩ := hbegins
  induction first with
  | nil => simp at hblank
  | cons c first ih =>
      by_cases hc : isBlank c = true
      · simp [firstWord, hc]
      · have hrest : ∃ d ∈ first, isBlank d = true := by simpa [hc] using hblank
        simpa [firstWord, hc] using ih hrest

theorem clear_cons_blank {word text : List Char} {c : Char} (hc : isBlank c = true)
    (hword : ∀ d ∈ word.head?, isBlank d = false) (hne : word ≠ []) (h : clear word text = true) :
    clear word (c :: text) = true := by
  obtain ⟨d, word, rfl⟩ := List.exists_cons_of_ne_nil hne
  have hdc : d ≠ c := by
    rintro rfl
    rw [hword d rfl] at hc
    cases hc
  simp [clear, List.isPrefixOf, hdc, hdc.symm, h]

-- Before a blank, a word with a blank begins only where its own first word ends.
theorem clear_append {word name later : List Char} (hname : ∀ c ∈ name, isBlank c = false)
    (hlater : ∃ c ∈ later.head?, isBlank c = true) (hword : ∃ c ∈ word, isBlank c = true)
    (hfirst : ¬firstWord word <:+ name) (h : clear word later = true) :
    clear word (name ++ later) = true := by
  induction name with
  | nil => exact h
  | cons c name ih =>
      obtain ⟨b, hb, hblank⟩ := hlater
      obtain ⟨rest, rfl⟩ : ∃ rest, later = b :: rest :=
        ⟨later.tail, List.eq_cons_of_mem_head? hb⟩
      have hwhole : firstWord (c :: name ++ b :: rest) = c :: name := by
        rw [firstWord, List.takeWhile_append_of_pos (by simpa using hname),
          List.takeWhile_cons_of_neg (by simp [hblank]), List.append_nil]
      have hnot : firstWord word ≠ firstWord (c :: name ++ b :: rest) := fun heq =>
        hfirst (heq.trans hwhole ▸ List.suffix_rfl)
      simp only [List.cons_append, clear, Bool.and_eq_true, Bool.not_eq_true']
      refine ⟨⟨?_, ?_⟩, ih (fun d hd => hname d (List.mem_cons_of_mem _ hd)) fun hsuffix =>
        hfirst (hsuffix.trans (List.suffix_cons _ _))⟩
      · rw [Bool.eq_false_iff]
        intro hbegins
        exact hnot (firstWord_eq_of_begins (List.isPrefixOf_iff_prefix.mp hbegins) hword).symm
      · rw [Bool.eq_false_iff]
        intro hbegins
        exact hnot (firstWord_eq_of_begins (List.isPrefixOf_iff_prefix.mp hbegins) ⟨b, by simp, hblank⟩)

end Text

namespace Undefined

open Pattern Diagnosis

-- Texts that other errors about imports hold and this one does not.
def strangeTexts : List String :=
  ["does not provide an export named ", "No matching export in \"", "Module ",
    "Cannot find module", "Could not resolve", "Failed to resolve import", "Cannot find name "]

-- What stands before the name of the component, behind it, and before the place.
def opening : List Char := "ReferenceError: ".toList

def said : List Char := " is not defined".toList

def standing : List Char := "\n    at ".toList

-- What says that a component is undefined, up to its place.
def head (name : List Char) : List Char := opening ++ (name ++ (said ++ standing))

theorem opening_eq : opening = "ReferenceError:".toList ++ [' '] := by decide

theorem blank_mem_strangeTexts :
    ∀ word ∈ strangeTexts, ∃ c ∈ word.toList, Text.isBlank c = true := by
  have hany : ∀ word ∈ strangeTexts, word.toList.any Text.isBlank = true := by decide
  exact fun word hword => List.any_eq_true.mp (hany word hword)

-- A known name does not end like the first word of a text of another error.
theorem firstWord_of_known : ∀ known ∈ KnownName.table, ∀ word ∈ strangeTexts,
    ¬Text.firstWord word.toList <:+ known.name.toList := by
  decide

theorem clear_head {name : String} (hname : ∀ c ∈ name.toList, Text.isBlank c = false)
    (hfirst : ∀ word ∈ strangeTexts, ¬Text.firstWord word.toList <:+ name.toList) {word : String}
    (hword : word ∈ strangeTexts) : Text.clear word.toList (head name.toList) = true := by
  have hall : ∀ word ∈ strangeTexts,
      Text.clear word.toList (said ++ standing) = true ∧
        ¬Text.firstWord word.toList <:+ "ReferenceError:".toList ∧
        word.toList.head?.toList.all (!Text.isBlank ·) = true ∧ word.toList ≠ [] := by
    decide
  have herrorName : "ReferenceError:".toList.all (!Text.isBlank ·) = true := by decide
  obtain ⟨hlater, herror, hhead, hne⟩ := hall word hword
  have hblank := blank_mem_strangeTexts word hword
  rw [head, opening_eq, List.append_assoc, List.singleton_append]
  refine Text.clear_append (by simpa using herrorName) ⟨' ', rfl, by decide⟩ hblank herror ?_
  refine Text.clear_cons_blank (by decide) (by simpa using hhead) hne ?_
  exact Text.clear_append hname ⟨' ', by decide, by decide⟩ hblank (hfirst word hword) hlater

-- A name that is found undefined: a word of the forms that no other error ends in.
structure Plainly (name : String) : Prop where
  named : ∃ first later, name.toList = first :: later ∧ Text.isWordCharacter first = true ∧
    (CharClass.union (.range 'A' 'Z') (.union (.range 'a' 'z') (.ofList ['_', '$']))).has first =
      true
  solid : ∀ c ∈ name.toList, (CharClass.union .word (.one '$')).has c = true ∧
    Text.isBlank c = false ∧ c ≠ ':'
  unlike : ∀ word ∈ strangeTexts, ¬Text.firstWord word.toList <:+ name.toList

theorem plainly_of_known {known : KnownName} (h : known ∈ KnownName.table) :
    Plainly known.name := by
  have hplain := KnownName.plain_of_mem h
  obtain ⟨first, later, hname⟩ := List.exists_cons_of_ne_nil hplain.nonempty
  have hfirst : first ∈ known.name.toList := hname ▸ List.mem_cons_self
  refine ⟨⟨first, later, hname, Text.isWordCharacter_of_isAlphanum (hplain.name first hfirst), ?_⟩,
    fun c hc => ⟨?_, Text.not_blank_of_isAlphanum (hplain.name c hc),
      Text.ne_of_isAlphanum (hplain.name c hc) (by decide)⟩, firstWord_of_known known h⟩
  · exact CharClass.nameStart_of_isAlpha (hplain.first first (by rw [hname]; rfl))
  · exact Bool.or_eq_true_iff.mpr
      (.inl (Text.isWordCharacter_of_isAlphanum (hplain.name c hc)))

-- A report that a component is undefined, with a place that holds no blanks.
def Tells (name : String) (raw : List Char) : Prop :=
  ∃ place, raw = head name.toList ++ place ∧ place ≠ [] ∧ ∀ c ∈ place, Text.isBlank c = false

section

variable {name : String} {raw : List Char}

theorem infix_of_reads_text {word : String} {later : Pattern} {text : List Char}
    (h : Reads (.seq (.text word) later) text) : word.toList <:+: text := by
  obtain ⟨front, back, rfl, hfront, _⟩ := h.exists_seq
  rw [hfront.eq_chars]
  exact (List.prefix_append _ _).isInfix

theorem find?_eq_none_of_strange (hname : Plainly name) (hraw : Tells name raw) {form : Pattern}
    (hreads : ∀ text, Reads form text → ∃ word ∈ strangeTexts, word.toList <:+: text) :
    form.find? raw = none := by
  obtain ⟨place, rfl, _, hplace⟩ := hraw
  refine find?_eq_none fun text hpart h => ?_
  obtain ⟨word, hword, hwithin⟩ := hreads text h
  have hclear := clear_head (fun c hc => (hname.solid c hc).2.1) hname.unlike hword
  exact Text.not_infix_of_clear hclear (blank_mem_strangeTexts word hword) hplace
    (hwithin.trans hpart)

theorem strange_of_moduleNotFound {text : List Char} (h : Reads Form.moduleNotFound text) :
    ∃ word ∈ strangeTexts, word.toList <:+: text := by
  obtain ⟨front, back, rfl, hfront, _⟩ := h.exists_seq
  have hleft (word : String) (hword : word ∈ strangeTexts) (hwithin : word.toList <:+: front) :
      ∃ word ∈ strangeTexts, word.toList <:+: front ++ back :=
    ⟨word, hword, hwithin.trans (List.prefix_append _ _).isInfix⟩
  cases hfront with
  | left h => exact hleft "Cannot find module" (by decide) (h.eq_chars ▸ List.infix_rfl)
  | right h =>
      cases h with
      | left h => exact hleft "Could not resolve" (by decide) (h.eq_chars ▸ List.infix_rfl)
      | right h =>
          cases h with
          | left h =>
              exact hleft "Failed to resolve import" (by decide)
                (h.eq_chars ▸ List.infix_rfl)
          | right h =>
              refine hleft "Module " (by decide)
                (List.IsInfix.trans ?_ (infix_of_reads_text h))
              exact ⟨[], "not found:".toList, by decide⟩

-- The forms of other errors about imports and names do not occur in the report.
theorem find?_otherForms (hname : Plainly name) (hraw : Tells name raw) :
    ∀ form ∈ [Form.noExportNamed, Form.unmatchedExport, Form.unknownMember, Form.moduleNotFound,
      Form.nameNotFound 1, Form.nameNotFound 2, Form.refusedExport], form.find? raw = none := by
  have hnone {form : Pattern} (word : String) (hword : word ∈ strangeTexts)
      (hreads : ∀ text, Reads form text → word.toList <:+: text) : form.find? raw = none :=
    find?_eq_none_of_strange hname hraw fun text h => ⟨word, hword, hreads text h⟩
  simp only [List.forall_mem_cons]
  refine ⟨?_, ?_, ?_, ?_, ?_, ?_, ?_, by simp⟩
  · exact hnone "does not provide an export named " (by decide) fun _ => infix_of_reads_text
  · exact hnone "No matching export in \"" (by decide) fun _ => infix_of_reads_text
  · exact hnone "Module " (by decide) fun _ => infix_of_reads_text
  · exact find?_eq_none_of_strange hname hraw fun _ => strange_of_moduleNotFound
  · exact hnone "Cannot find name " (by decide) fun _ => infix_of_reads_text
  · exact hnone "Cannot find name " (by decide) fun _ => infix_of_reads_text
  · refine hnone "does not provide an export named " (by decide) fun text h => ?_
    obtain ⟨front, back, rfl, _, hback⟩ := h.exists_seq
    exact (infix_of_reads_text hback).trans (List.suffix_append _ _).isInfix

theorem missingExport?_eq_none (hname : Plainly name) (hraw : Tells name raw) :
    missingExport? raw = none := by
  have hforms := find?_otherForms hname hraw
  unfold missingExport?
  rw [hforms Form.unmatchedExport (by simp), hforms Form.unknownMember (by simp),
    hforms Form.refusedExport (by simp)]
  rfl

-- What names the component is found where the component stands.
theorem matchAt_notDefined (hname : Plainly name) {spot : Spot} {later : List Char}
    (hlast : spot.last = some ' ')
    (hrest : spot.rest = name.toList ++ (said ++ later)) :
    ∃ found, Form.notDefined.matchAt spot = some found ∧ found.group? 1 = some name.toList := by
  obtain ⟨first, tail, hcons, hword, hstart⟩ := hname.named
  have hfirst : spot.rest = first :: (tail ++ (said ++ later)) := by
    rw [hrest, hcons, List.cons_append]
  have hedge : Assertion.wordBoundary.holds spot = true := by
    simp only [Assertion.holds, hlast, hfirst, List.head?_cons, Option.any_some, hword]
    decide
  have htail : ∀ c ∈ tail, (CharClass.union .word (.one '$')).has c = true :=
    fun c hc => (hname.solid c (by rw [hcons]; exact List.mem_cons_of_mem _ hc)).1
  obtain ⟨after, hafter⟩ : ∃ after,
      (spot.next first (tail ++ (said ++ later))).skip tail.length = after :=
    ⟨_, rfl⟩
  have hstop : after.rest = said ++ later := hafter ▸ Spot.rest_skip rfl
  have hrun : Form.notDefined.run spot [] (fun stop found => some (stop, found)) =
      some (after.skip said.length, [⟨1, spot, after⟩]) := by
    show (Pattern.edge.run spot [] fun spot found => (Pattern.seq (Pattern.group 1 Pattern.name)
      (Pattern.text " is not defined")).run spot found fun stop found => some (stop, found)) = _
    rw [Pattern.edge, run_assert hedge, run_seq, run_group, Pattern.name, run_seq, nameStart,
      run_set hfirst hstart]
    refine run_star_set rfl htail ?_ ?_
    · intro c hc
      rw [List.head?_append_of_ne_nil _ (by decide)] at hc
      obtain rfl : ' ' = c := Option.some.inj ((by decide :
        some ' ' = said.head?).trans hc)
      decide
    · rw [hafter]
      exact run_text hstop
  have htext : (⟨1, spot, after⟩ : Capture).text = name.toList :=
    capture_text (by rw [hrest, hstop])
  exact ⟨⟨spot, _, [⟨1, spot, after⟩]⟩, by rw [matchAt, hrun]; rfl, congrArg some htext⟩

theorem not_reads_notDefined {front later text rest : List Char} (hne : front ≠ [])
    (hsuffix : front <:+ opening) (heq : front ++ later = text ++ rest) :
    ¬Reads Form.notDefined text := by
  intro h
  obtain ⟨_, back, rfl, hedge, hback⟩ := h.exists_seq
  obtain ⟨word, behind, rfl, hword, hbehind⟩ := hback.exists_seq
  obtain ⟨_, more, rfl, hfirst, hmore⟩ := hword.of_group.exists_seq
  obtain ⟨c, rfl, hc⟩ := hfirst.exists_set
  have htail := hmore.of_rounds_set.2
  have hfronts : ∀ front ∈ opening.tails, front = [] ∨
      front.head?.any (fun d => !(CharClass.union (.range 'A' 'Z') (.union (.range 'a' 'z')
        (.ofList ['_', '$']))).has d) = true ∨
      (front.tail.dropWhile (CharClass.union .word (.one '$')).has).head? = some ':' := by
    decide
  rw [hedge.eq_assert, show behind = said from hbehind.eq_chars] at heq
  have hwhole : front ++ later = c :: (more ++ (said ++ rest)) := by
    rw [heq]
    simp only [List.nil_append, List.cons_append, List.append_assoc]
  obtain ⟨d, front, rfl⟩ := List.exists_cons_of_ne_nil hne
  obtain ⟨rfl, hrest⟩ := List.cons.inj hwhole
  rcases hfronts _ ((List.mem_tails _ _).mpr hsuffix) with hnil | hnot | hcolon
  · cases hnil
  · rw [List.head?_cons, Option.any_some, hc] at hnot
    cases hnot
  · have hblank : said = ' ' :: "is not defined".toList := by decide
    have hdrop := congrArg (List.dropWhile (CharClass.union .word (.one '$')).has) hrest
    rw [List.dropWhile_append_of_pos htail, hblank, List.cons_append,
      List.dropWhile_cons_of_neg (by decide), List.append_eq, List.dropWhile_append] at hdrop
    rw [List.tail_cons] at hcolon
    split at hdrop
    · rename_i hempty
      rw [List.isEmpty_iff.mp hempty] at hcolon
      cases hcolon
    · have hhead := congrArg List.head? hdrop
      rw [List.head?_append, hcolon] at hhead
      cases hhead

-- The report names the component in the form that the remedy reads.
theorem find?_notDefined (hname : Plainly name) (hraw : Tells name raw) (form : Pattern)
    (hreads : ∀ text, Reads form text → Reads Form.notDefined text ∨ text.head? = some 'C')
    (hmatch : ∀ spot found, Form.notDefined.matchAt spot = some found →
      form.matchAt spot = some found) :
    ∃ found, form.find? raw = some found ∧ found.group? 1 = some name.toList := by
  obtain ⟨place, rfl, _⟩ := hraw
  generalize hspot : Spot.start (head name.toList ++ place) = spot
  have hrest : spot.rest = opening ++ (name.toList ++ (said ++ (standing ++ place))) := by
    rw [← hspot]
    simp only [Spot.start, head, List.append_assoc]
  have hlast : (spot.skip opening.length).last = some ' ' := by
    rw [opening_eq, List.append_assoc, List.singleton_append] at hrest
    rw [opening_eq, List.length_append, List.length_singleton]
    exact Spot.last_skip _ _ hrest
  obtain ⟨found, hfound, hgroup⟩ := matchAt_notDefined hname hlast (Spot.rest_skip hrest)
  refine ⟨found, ?_, hgroup⟩
  rw [find?, hspot, findFrom_skip hrest]
  · exact findFrom_of_matchAt (hmatch _ _ hfound)
  · intro front hne hsuffix start hstart
    refine matchAt_eq_none fun text later htext h => ?_
    rcases hreads text h with h | hhead
    · exact not_reads_notDefined hne hsuffix (hstart.symm.trans htext) h
    · have hfronts : ∀ front ∈ opening.tails, front.head? ≠ some 'C' := by
        decide
      refine hfronts front ((List.mem_tails _ _).mpr hsuffix) ?_
      have hsame := congrArg List.head? (hstart.symm.trans htext)
      rw [List.head?_append_of_ne_nil _ hne, List.head?_append, hhead, Option.some_or] at hsame
      exact hsame

theorem undefinedName?_eq_some (hname : Plainly name) (hraw : Tells name raw) :
    undefinedName? raw = some name := by
  obtain ⟨found, hfind, hgroup⟩ := find?_notDefined hname hraw Form.undefinedName
    (fun text h => by
      cases h with
      | left h => exact .inl h
      | right h =>
          obtain ⟨front, back, rfl, hfront, _⟩ := h.exists_seq
          rw [hfront.eq_chars]
          exact .inr rfl)
    (fun spot found h => by
      obtain ⟨result, hrun, rfl⟩ := Option.map_eq_some_iff.mp h
      show (((alt Form.notDefined (Form.nameNotFound 2)).run spot []
        fun stop found => some (stop, found)).map _) = _
      rw [run_alt, hrun]
      rfl)
  unfold undefinedName?
  rw [hfind, Option.map_some, hgroup]
  simp

-- The rule about undefined names stands behind rules with forms of other errors.
theorem exists_rule : ∃ front rule later, Classifier.usual.rules = front ++ rule :: later ∧
    (∀ other ∈ front, other.form ∈ [Form.noExportNamed, Form.unmatchedExport, Form.unknownMember,
      Form.moduleNotFound, Form.nameNotFound 1, Form.nameNotFound 2, Form.refusedExport]) ∧
    rule.form = Form.notDefined ∧ rule.kind = .missingImport ∧
    rule.confidence = .ofDecimal false 85 (-2) := by
  refine ⟨Rule.imports.take 5, Rule.imports[5], _, rfl, ?_, rfl, rfl, ?_⟩
  · simp [Rule.imports, Rule.ofPercent]
  · simp [Rule.imports, Rule.ofPercent]

theorem exists_firstMatch? (hname : Plainly name) (hraw : Tells name raw) :
    ∃ rule found, Classifier.usual.firstMatch? raw = some (rule, found) ∧
      rule.kind = .missingImport ∧ rule.confidence = .ofDecimal false 85 (-2) := by
  obtain ⟨found, hfound, _⟩ := find?_notDefined hname hraw Form.notDefined
    (fun _ h => .inl h) fun _ _ h => h
  obtain ⟨front, rule, later, hrules, hfront, hform, hkind, hconfidence⟩ := exists_rule
  have hnone : front.findSome? (fun other => (other.form.find? raw).map fun found =>
      (other, found)) = none :=
    List.findSome?_eq_none_iff.mpr fun other hm => by
      rw [find?_otherForms hname hraw _ (hfront other hm)]
      rfl
  refine ⟨rule, found, ?_, hkind, hconfidence⟩
  rw [Classifier.firstMatch?, hrules, List.findSome?_append, hnone, Option.none_or,
    List.findSome?_cons, hform, hfound]
  rfl

theorem toList_message (name : String) :
    (Linking.Problem.undeclared name).message.toList = opening ++ (name.toList ++ said) := by
  have htext : ∀ text : String, toString text = text := fun _ => rfl
  unfold Linking.Problem.message
  simp only [String.toList_append, htext, List.append_assoc]
  rfl

theorem trim_report (hraw : Tells name raw) : Text.trim raw = raw := by
  obtain ⟨place, rfl, hne, hplace⟩ := hraw
  refine Text.trim_eq_self (fun c hc => ?_) fun c hc => ?_
  · rw [head, List.append_assoc, List.head?_append,
      show opening.head? = some 'R' by decide] at hc
    obtain rfl : 'R' = c := Option.some.inj hc
    decide
  · rw [List.getLast?_append_of_ne_nil _ hne] at hc
    exact hplace c (List.mem_of_getLast? hc)

theorem firstLine_fst (hname : Plainly name) (hraw : Tells name raw) :
    (firstLine raw).1 = (Linking.Problem.undeclared name).message.toList := by
  have htrim := trim_report hraw
  obtain ⟨place, rfl, hne, hplace⟩ := hraw
  have hfirst : (opening ++ (name.toList ++ said)).head? = some 'R' ∧
      (opening ++ (name.toList ++ said)).getLast? = some 'd' := by
    rw [List.head?_append, List.getLast?_append, List.getLast?_append,
      show opening.head? = some 'R' by decide,
      show said.getLast? = some 'd' by decide]
    exact ⟨rfl, rfl⟩
  have hline : '\n' ∉ opening ++ (name.toList ++ said) := by
    simp only [List.mem_append, not_or]
    refine ⟨by decide, fun hmem => ?_, by decide⟩
    have := (hname.solid _ hmem).2.1
    revert this
    decide
  have hwhole : head name.toList ++ place =
      (opening ++ (name.toList ++ said)) ++ '\n' :: ("    at ".toList ++ place) := by
    rw [head, show standing = '\n' :: "    at ".toList by decide]
    simp only [List.append_assoc, List.cons_append]
  have hafter : Text.after? "Uncaught ".toList (opening ++ (name.toList ++ said)) = none := by
    refine Option.eq_none_iff_forall_ne_some.mpr fun rest hrest => ?_
    have hhead := congrArg List.head? (Text.after?_eq_some_iff.mp hrest)
    rw [hfirst.1, List.head?_append, show "Uncaught ".toList.head? = some 'U' by decide] at hhead
    cases hhead
  have htrimFirst : Text.trim (opening ++ (name.toList ++ said)) = opening ++ (name.toList ++ said) :=
    Text.trim_eq_self (fun c hc => by
      obtain rfl : 'R' = c := Option.some.inj (hfirst.1.symm.trans hc)
      decide) fun c hc => by
      obtain rfl : 'd' = c := Option.some.inj (hfirst.2.symm.trans hc)
      decide
  rw [toList_message]
  unfold firstLine
  dsimp only
  rw [htrim, hwhole, Text.cut?_char _ hline]
  dsimp only
  rw [htrimFirst, hafter]
  rfl

-- The report is diagnosed as a missing import that may be patched.
theorem classify_eq (hname : Plainly name) {report : String} (hraw : Tells name report.toList) :
    (Classifier.usual.classify report).kind = .missingImport ∧
      (Classifier.usual.classify report).message = (Linking.Problem.undeclared name).message ∧
      (Classifier.usual.classify report).isFixable = true := by
  obtain ⟨rule, found, hfirst, hkind, hconfidence⟩ := exists_firstMatch? hname hraw
  have hmessage := firstLine_fst hname hraw
  have hfixable : fixThreshold.le (.ofDecimal false 85 (-2)) = true := by decide +kernel
  unfold Classifier.classify Diagnosis.isFixable
  rw [hfirst]
  dsimp only
  rw [hkind, hconfidence, hmessage, hfixable, String.ofList_toList]
  exact ⟨rfl, rfl, rfl⟩

-- What is done about the report is to add the import of the name, unless it is there.
theorem action_remedy (hname : Plainly name) {report : String} (hraw : Tells name report.toList)
    {known : KnownName} (hknown : KnownName.find? name = some known) (source : String) :
    (∃ fixed, ImportPatch.addImport? source.toList known = some fixed ∧
      ((Classifier.usual.classify report).remedy source).action = .patch (String.ofList fixed)) ∨
    (ImportPatch.addImport? source.toList known = none ∧
      ∃ text, ((Classifier.usual.classify report).remedy source).action = .prompt text) := by
  have hdetails : (Classifier.usual.classify report).details = report.toList := by
    refine if_neg fun hnil => ?_
    obtain ⟨place, hplace, hne, _⟩ := hraw
    have htrim : Text.trim report.toList = [] := hnil
    rw [trim_report ⟨place, hplace, hne, ‹_›⟩, hplace] at htrim
    exact hne (List.append_eq_nil_iff.mp htrim).2
  unfold Diagnosis.remedy
  rw [(classify_eq hname hraw).1]
  unfold importRemedy
  dsimp only
  rw [hdetails, missingExport?_eq_none hname hraw, undefinedName?_eq_some hname hraw]
  dsimp only
  rw [hknown, Option.bind_some]
  cases hfixed : ImportPatch.addImport? source.toList known with
  | none => exact .inr ⟨rfl, _, rfl⟩
  | some fixed => exact .inl ⟨fixed, rfl, rfl⟩

section Finding

variable {finding : Linking.Finding} {place : Text.Place}

theorem raw_finding (hproblem : finding.problem = .undeclared name)
    (hplace : finding.place? = some place) :
    (BundleError.ofMessage (.ofFinding finding)).raw.toList =
      (Linking.Problem.undeclared name).message.toList ++ "\n    ".toList ++
        Location.frameText finding.path.toList (toString place.line).toList
          (toString place.column).toList := by
  have hline : (BundleError.ofMessage (.ofFinding finding)).line? = some place.line := by
    simp [BundleError.ofMessage, BuildMessage.ofFinding, hplace]
  have hcolumn : (BundleError.ofMessage (.ofFinding finding)).column? = some place.column := by
    simp [BundleError.ofMessage, BuildMessage.ofFinding, hplace]
  have hfile : (BundleError.ofMessage (.ofFinding finding)).file? = some finding.path := rfl
  have hraw := BundleError.raw_placed _ hfile hline hcolumn
  rw [hraw, ← hproblem]
  rfl

-- The finding about an undeclared component is reported so.
theorem tells_finding (hpath : Location.Plain finding.path.toList)
    (hproblem : finding.problem = .undeclared name) (hplace : finding.place? = some place) :
    Tells name (BundleError.ofMessage (.ofFinding finding)).raw.toList := by
  have hstanding : standing = "\n    ".toList ++ "at ".toList := by decide
  have hline := Location.toString_digits place.line
  have hcolumn := Location.toString_digits place.column
  refine ⟨finding.path.toList ++ ':' :: ((toString place.line).toList ++
    ':' :: (toString place.column).toList), ?_, by simp, ?_⟩
  · rw [raw_finding hproblem hplace, toList_message, Location.frameText, head, hstanding]
    simp only [List.append_assoc]
  · intro c hc
    simp only [List.mem_append, List.mem_cons] at hc
    rcases hc with hc | rfl | hc | rfl | hc
    · exact (hpath.2 c hc).1
    · decide
    · exact Location.not_blank_of_digit (hline.2 c hc)
    · decide
    · exact Location.not_blank_of_digit (hcolumn.2 c hc)

-- Its diagnosis is about the file of the finding.
theorem file?_finding (hname : Plainly name) (hpath : Location.Plain finding.path.toList)
    (hproblem : finding.problem = .undeclared name) (hplace : finding.place? = some place) :
    ∃ named, (Classifier.usual.classify
        (BundleError.ofMessage (.ofFinding finding)).raw).location.file? = some named ∧
      Path.normalize named = Path.normalize finding.path := by
  have hquiet : Location.Quiet (Linking.Problem.undeclared name).message.toList :=
    Linking.quiet_undeclared fun hmem => (hname.solid _ hmem).2.2 rfl
  obtain ⟨found, hfind, hfile, _⟩ := Location.find?_report hquiet hpath
    (Location.toString_digits place.line) (Location.toString_digits place.column)
  refine ⟨_, ?_, Location.normalize_barePath hpath⟩
  show (Location.ofMessage _).file? = _
  rw [raw_finding hproblem hplace, Location.ofMessage, hfind]
  simp only [Location.groupFile, Match.group, hfile, Option.getD_some]

end Finding

end

end Undefined

namespace Linking

-- Only undeclared components are called by words that begin so.
theorem Problem.exists_undeclared {problem : Problem}
    (h : problem.message.toList.head? = some 'R') : ∃ name, problem = .undeclared name := by
  have htext : ∀ text : String, toString text = text := fun _ => rfl
  have hstart : ∀ (front : String) (c : Char) (later : List Char),
      problem.message.toList = front.toList ++ later → front.toList.head? = some c → c = 'R' := by
    intro front c later hmessage hc
    rw [hmessage, List.head?_append, hc, Option.some_or] at h
    exact Option.some.inj h
  cases problem with
  | missingFile path =>
      have hmessage : (Problem.missingFile path).message.toList =
          "Could not load \"".toList ++ (path.toList ++ "\"".toList) := by
        unfold Problem.message
        simp only [String.toList_append, htext, List.append_assoc]
      exact absurd (hstart _ 'C' _ hmessage (by decide)) (by decide)
  | invalidData error =>
      have hmessage : (Problem.invalidData error).message.toList =
          "Invalid JSON: ".toList ++ error.message.toList := by
        unfold Problem.message
        simp only [String.toList_append, htext]
      exact absurd (hstart _ 'I' _ hmessage (by decide)) (by decide)
  | broken problem =>
      obtain ⟨front, later, hmessage, hhead⟩ : ∃ front later,
          (Problem.broken problem).message.toList = String.toList front ++ later ∧
            front.toList.head? = some 'U' := by
        cases problem with
        | unexpectedCloser bracket =>
            refine ⟨"Unexpected \"", (toString bracket).toList ++ "\"".toList, ?_, by decide⟩
            unfold Problem.message Script.Problem.message
            simp only [String.toList_append, htext, List.append_assoc]
        | unclosed bracket line =>
            refine ⟨"Unexpected end of file: \"", (toString bracket).toList ++
              ("\" opened on line ".toList ++ ((toString line).toList ++
                " is never closed".toList)), ?_, by decide⟩
            unfold Problem.message Script.Problem.message
            simp only [String.toList_append, htext, List.append_assoc]
        | _ => exact ⟨_, [], (List.append_nil _).symm, by decide⟩
      exact absurd (hstart _ 'U' _ hmessage hhead) (by decide)
  | undeclared component => exact ⟨component, rfl⟩
  | missingExport target name =>
      have hmessage : (Problem.missingExport target name).message.toList =
          "No matching export in \"".toList ++ (target.toList ++
            ("\" for import \"".toList ++ (name.toList ++ "\"".toList))) := by
        unfold Problem.message
        simp only [String.toList_append, htext, List.append_assoc]
      exact absurd (hstart _ 'N' _ hmessage (by decide)) (by decide)

theorem Problem.eq_undeclared_of_message {problem : Problem} {name : String}
    (h : problem.message = (Problem.undeclared name).message) : problem = .undeclared name := by
  have hhead : problem.message.toList.head? = some 'R' := by
    rw [h, Undefined.toList_message, List.head?_append,
      show Undefined.opening.head? = some 'R' by decide, Option.some_or]
  obtain ⟨component, rfl⟩ := Problem.exists_undeclared hhead
  have hlist := congrArg String.toList h
  rw [Undefined.toList_message, Undefined.toList_message] at hlist
  rw [String.toList_inj.mp (List.append_cancel_right (List.append_cancel_left hlist))]

end Linking

end LivePreview
