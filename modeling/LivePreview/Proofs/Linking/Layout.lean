import LivePreview.Proofs.Linking.Exports
import LivePreview.Proofs.Text.Infix

namespace LivePreview.Linking

open Pattern Script
open ImportPatch (IsGap)
open Spot (between)

-- The kinds of exports.
inductive ExportKind where
  | declared
  | expression
  | value
  | type
  | list
deriving DecidableEq

namespace ExportKind

-- The kinds in the order in which their exports are replaced.
def all : List ExportKind := [declared, expression, value, type, list]

def rank : ExportKind → Nat
  | declared => 0
  | expression => 1
  | value => 2
  | type => 3
  | list => 4

theorem eq_of_rank {kind other : ExportKind} (h : kind.rank = other.rank) : kind = other := by
  cases kind <;> cases other <;> first | rfl | cases h

def form : ExportKind → Pattern
  | declared => Form.defaultDeclaration
  | expression => Form.defaultExpression
  | value => Form.valueDeclaration
  | type => Form.typeDeclaration
  | list => Form.listStatement

-- What the form reads behind the word `export` and its blanks.
def body : ExportKind → Pattern
  | declared => Pattern.all [Pattern.text "default", blanks, defaultBody]
  | expression => Pattern.all [Pattern.text "default", blanks]
  | value => group 2 (valueWords 3)
  | type => group 2 typeWords
  | list => listBody

-- The words with which an export begins behind the word `export`.
def openers : ExportKind → List String
  | declared => ["default"]
  | expression => ["default"]
  | value => ["async", "abstract", "function", "class", "const", "let", "var", "enum"]
  | type => ["declare", "type", "interface"]
  | list => ["\x7b"]

def edit : ExportKind → Match → List Char
  | declared => Exporting.declaration
  | expression => fun _ => "exports.default = ".toList
  | value => Exporting.declaration
  | type => Exporting.declaration
  | list => fun _ => []

def assign : ExportKind → Match → List (List Char)
  | declared => fun found =>
      [assignment "default".toList (((found.group? 3).or (found.group? 4)).getD [])]
  | expression => fun _ => []
  | value => fun found => [assignment (found.group 3) (found.group 3)]
  | type => fun _ => []
  | list => Exporting.listAssignments

def replace (kind : ExportKind) (script : Exporting) : Exporting :=
  script.step kind.form kind.edit kind.assign

theorem ofScript_eq (source : List Char) : Exporting.ofScript source =
    all.foldl (fun script kind => kind.replace script) ⟨source, []⟩ :=
  rfl

theorem exports (kind : ExportKind) : Exports kind.form kind.body := by
  cases kind with
  | declared => exact exports_line 1 _
  | expression => exact exports_word _
  | value => exact exports_line 1 _
  | type => exact exports_line 1 _
  | list => exact exports_word _

theorem opens (kind : ExportKind) : kind.form.Opens "export".toList .blank := by
  cases kind with
  | declared => exact Form.opens_defaultDeclaration
  | expression => exact Form.opens_defaultExpression
  | value => exact Form.opens_valueDeclaration
  | type => exact Form.opens_typeDeclaration
  | list => exact Form.opens_listStatement

theorem nullable (kind : ExportKind) : kind.form.nullable = false := by cases kind <;> rfl

theorem nullable_body (kind : ExportKind) : kind.body.nullable = false := by cases kind <;> rfl

theorem not_blank_firsts (kind : ExportKind) {c : Char} (hc : kind.body.firsts.has c = true) :
    Text.isBlank c = false := by
  obtain ⟨chars, hchars, hblank⟩ : ∃ chars, kind.body.firsts.members? = some chars ∧
      ∀ c ∈ chars, Text.isBlank c = false := by cases kind <;> exact ⟨_, rfl, by decide⟩
  exact hblank c (CharClass.mem_of_members? hchars hc)

theorem not_blank_openers (kind : ExportKind) : ∀ word ∈ kind.openers,
    word.toList ≠ [] ∧ ∀ c ∈ word.toList.head?, Text.isBlank c = false := by
  cases kind <;> decide

theorem distinct_openers {kind other : ExportKind} (h : kind.rank < other.rank)
    (hother : other ≠ expression) : Distinct other.openers kind.openers := by
  cases kind <;> cases other <;> first | contradiction | decide

theorem opened_of_reads {kind other : ExportKind} (h : kind.rank < other.rank) {text : List Char}
    (hreads : Reads kind.body text) : Opened kind.openers text := by
  cases kind with
  | declared =>
      obtain ⟨_, later, rfl, hword, _⟩ := hreads.exists_all
      rw [hword.eq_chars]
      exact opened_word _ later
  | expression =>
      obtain ⟨_, later, rfl, hword, _⟩ := hreads.exists_all
      rw [hword.eq_chars]
      exact opened_word _ later
  | value => exact opened_of_reads_valueWords hreads.of_group
  | type => exact opened_of_reads_typeWords hreads.of_group
  | list => cases other <;> contradiction

end ExportKind

-- An export, as it stands behind the word and its blanks.
inductive Export where
  | declared (gap heading name : List Char)
  | expression (gap : List Char)
  | value (heading name : List Char)
  | type (heading : List Char)
  | list (items tail : List Char)

namespace Export

def kind : Export → ExportKind
  | declared _ _ _ => .declared
  | expression _ => .expression
  | value _ _ => .value
  | type _ => .type
  | list _ _ => .list

def words : Export → List Char
  | declared gap heading name => "default".toList ++ (gap ++ (heading ++ name))
  | expression gap => "default".toList ++ gap
  | value heading name => heading ++ name
  | type heading => heading
  | list items tail => '\x7b' :: (items ++ '\x7d' :: tail)

theorem words_list (items tail : List Char) :
    (list items tail).words = '\x7b' :: (items ++ '\x7d' :: tail) := rfl

-- What takes the place of the export.
def result : Export → List Char
  | declared _ heading name => heading ++ name
  | expression _ => "exports.default = ".toList
  | value heading name => heading ++ name
  | type heading => heading
  | list _ _ => []

-- The assignments that it leaves for the end of the script.
def assigned : Export → List (List Char)
  | declared _ _ name => [assignment "default".toList name]
  | expression _ => []
  | value _ name => [assignment name name]
  | type _ => []
  | list items _ => (Renaming.ofItems items).map fun item => assignment item.newName item.name

-- The export stands in front of the text. The value of an expression is in the text, which does not
-- begin, whatever lines follow, like the declaration of a function or a class with a name.
inductive Stands (text : List Char) : Export → Prop
  | declared {gap heading name : List Char} (hgap : IsGap gap) (hheading : DefaultHeading heading)
      (hname : IsDeclared name) (htext : ∀ c ∈ text.head?, inIdentifier c = false) :
      Stands text (.declared gap heading name)
  | expression {gap : List Char} (hgap : IsGap gap) (hne : text ≠ [])
      (htext : ∀ c ∈ text.head?, Text.isBlank c = false)
      (hvalue : ∀ later, (∀ c ∈ later.head?, c = '\n') → ∀ heading name, DefaultHeading heading →
        IsDeclared name → ¬heading ++ name <+: text ++ later) :
      Stands text (.expression gap)
  | value {heading name : List Char} (hheading : ValueHeading heading) (hname : IsDeclared name)
      (htext : ∀ c ∈ text.head?, inIdentifier c = false) : Stands text (.value heading name)
  | type {heading : List Char} (hheading : TypeHeading heading) : Stands text (.type heading)
  | list {items tail : List Char} (hitems : '\x7d' ∉ items) (htail : EndsList text tail) :
      Stands text (.list items tail)

end Export

-- Nowhere in the text, with a break behind it, a blank follows `export`.
def Quiet (text : List Char) : Prop :=
  ∀ c, Text.isBlank c = true → ¬"export".toList ++ [c] <:+: text ++ ['\n']

theorem not_mem_export_blank {c d : Char} (hc : Text.isBlank c = true) (hd : d ∉ "export".toList)
    (hblank : Text.isBlank d = false) : d ∉ "export".toList ++ [c] := by
  rw [List.mem_append, List.mem_singleton, not_or]
  refine ⟨hd, ?_⟩
  rintro rfl
  rw [hc] at hblank
  cases hblank

-- A text without the word.
theorem quiet_of_contains {text : List Char} (h : Text.contains "export".toList text = false) :
    Quiet text := by
  intro c _ hwithin
  have hbreak : '\n' ∉ "export".toList := by decide
  rcases Text.infix_of_infix_append_cons hbreak
    ((List.prefix_append _ _).isInfix.trans hwithin) with hwithin | hwithin
  · rw [Text.contains_iff.mpr hwithin] at h
    cases h
  · exact absurd hwithin.length_le (by decide)

namespace Quiet

variable {text front : List Char}

theorem of_suffix (h : Quiet (front ++ text)) : Quiet text := fun c hc hwithin => by
  refine h c hc (hwithin.trans ?_)
  rw [List.append_assoc]
  exact (List.suffix_append front _).isInfix

-- A text in front without the first letter of the word.
theorem append (h : Quiet text) (hfront : 'e' ∉ front) : Quiet (front ++ text) := by
  intro c hc hwithin
  rw [List.append_assoc] at hwithin
  exact h c hc (Text.infix_of_infix_append hfront hwithin)

theorem append_indent (h : Quiet text) {indent : List Char} (hindent : IsIndent indent) :
    Quiet (indent ++ text) :=
  h.append fun hmem => by rcases hindent 'e' hmem with hc | hc <;> cases hc

-- The word is part of another one.
theorem append_exports (h : Quiet text) : Quiet ("exports.".toList ++ text) := by
  intro c hc hwithin
  have hsplit : "export".toList ++ [c] <:+:
      "export".toList ++ 's' :: (['.'] ++ (text ++ ['\n'])) := hwithin
  have hbehind := (Text.infix_of_infix_append_cons
    (not_mem_export_blank hc (by decide) (by decide)) hsplit).resolve_left fun hshort =>
      absurd hshort.length_le (by simp)
  have hdot : 'e' ∉ ['.'] := by decide
  exact h c hc (Text.infix_of_infix_append hdot hbehind)

theorem append_assigned (h : Quiet text) : Quiet ("exports.default = ".toList ++ text) := by
  have hdefault : Quiet ("default = ".toList ++ text) := by
    intro c hc hwithin
    have hsplit : "export".toList ++ [c] <:+:
        "def".toList ++ 'a' :: ("ult = ".toList ++ (text ++ ['\n'])) := hwithin
    have hbehind := (Text.infix_of_infix_append_cons
      (not_mem_export_blank hc (by decide) (by decide)) hsplit).resolve_left fun hshort =>
        absurd hshort.length_le (by simp)
    have hother : 'e' ∉ "ult = ".toList := by decide
    exact h c hc (Text.infix_of_infix_append hother hbehind)
  exact hdefault.append_exports

-- Behind the first letter of an export there is no other one.
theorem behind (h : Quiet text) {gap : List Char} (hgap : IsGap gap) :
    Quiet ("xport".toList ++ (gap ++ text)) := by
  have hletters : 'e' ∉ "xport".toList ++ gap := by
    rw [List.mem_append, not_or]
    refine ⟨by decide, fun hmem => ?_⟩
    have hblank := hgap.blank 'e' hmem
    revert hblank
    decide
  rw [← List.append_assoc]
  exact h.append hletters

theorem calm (h : Quiet text) {form : Pattern} (hform : form.Opens "export".toList .blank) :
    form.Calm text :=
  hform.calm (by decide) h

theorem nil : Quiet [] := fun c _ hwithin => by
  have hlength := hwithin.length_le
  simp at hlength

end Quiet

-- A part of a script with lines of its own: one without exports, or one that begins with an export.
inductive Chunk where
  | plain (text : List Char)
  | exporting (indent gap : List Char) (exported : Export) (text : List Char)

namespace Chunk

def source : Chunk → List Char
  | plain text => text
  | exporting indent gap exported text =>
      indent ++ ("export".toList ++ (gap ++ (exported.words ++ text)))

def result : Chunk → List Char
  | plain text => text
  | exporting indent _ exported text => indent ++ (exported.result ++ text)

def kind? : Chunk → Option ExportKind
  | plain _ => none
  | exporting _ _ exported _ => some exported.kind

-- The chunk when the exports of the kind are replaced, and the assignments they leave.
def replaced (kind : ExportKind) (chunk : Chunk) : Chunk :=
  if chunk.kind? = some kind then plain chunk.result else chunk

def assigned (kind : ExportKind) : Chunk → List (List Char)
  | plain _ => []
  | exporting _ _ exported _ => if exported.kind = kind then exported.assigned else []

inductive Laid : Chunk → Prop
  | plain {text : List Char} (h : Quiet text) : Laid (plain text)
  | exporting {indent gap text : List Char} {exported : Export} (hindent : IsIndent indent)
      (hgap : IsGap gap) (hstands : exported.Stands text) (hquiet : Quiet (exported.words ++ text)) :
      Laid (exporting indent gap exported text)

end Chunk

section Occurrences

variable {indent gap front rest : List Char} {chunk : Chunk} {chunks : List Chunk} {c : Char}

-- The text of a script.
def script (chunks : List Chunk) : List Char := ['\n'].intercalate (chunks.map Chunk.source)

theorem script_cons (chunk : Chunk) (chunks : List Chunk) : ∃ later,
    script (chunk :: chunks) ++ ['\n'] = chunk.source ++ ['\n'] ++ later ∧
      (chunks = [] ∧ later = [] ∨ later = script chunks ++ ['\n']) := by
  cases chunks with
  | nil => exact ⟨[], by simp [script], .inl ⟨rfl, rfl⟩⟩
  | cons second chunks =>
      exact ⟨_, by simp [script, List.intercalate], .inr rfl⟩

-- The only place in a part where a blank follows `export` is that of its export.
theorem Chunk.Laid.exists_exporting (h : chunk.Laid) (hc : Text.isBlank c = true)
    (hsplit : chunk.source ++ ['\n'] = front ++ ("export".toList ++ c :: rest)) :
    ∃ gap exported text, chunk = .exporting front gap exported text ∧
      c :: rest = gap ++ (exported.words ++ (text ++ ['\n'])) := by
  cases h with
  | @plain text h =>
      refine absurd ⟨front, rest, ?_⟩ (h c hc)
      rw [List.append_assoc, List.append_assoc]
      exact hsplit.symm
  | @exporting indent gap text exported hindent hgap hstands hquiet =>
      have hexport : "export".toList = 'e' :: "xport".toList := by decide
      have hwhole : indent ++ 'e' :: ("xport".toList ++ (gap ++ (exported.words ++
          (text ++ ['\n'])))) = front ++ ("export".toList ++ c :: rest) := by
        rw [← hsplit, Chunk.source, hexport]
        simp only [List.append_assoc, List.cons_append]
      have hhere {more : List Char} (h : "export".toList ++ c :: rest = 'e' :: ("xport".toList ++
          more)) : c :: rest = more := by
        rw [hexport] at h
        exact List.append_cancel_left (List.cons.inj h).2
      rcases List.append_eq_append_iff.mp hwhole with ⟨extra, rfl, hextra⟩ | ⟨extra, rfl, hextra⟩
      · cases extra with
        | nil => exact ⟨gap, exported, text, by rw [List.append_nil], hhere hextra.symm⟩
        | cons d extra =>
            refine absurd ⟨extra, rest, ?_⟩ (hquiet.behind hgap c hc)
            have hmore := (List.cons.inj hextra).2
            simp only [List.append_assoc] at hmore ⊢
            exact hmore.symm
      · cases extra with
        | nil => exact ⟨gap, exported, text, by rw [List.append_nil], hhere hextra⟩
        | cons d extra =>
            rw [hexport] at hextra
            obtain rfl : 'e' = d := (List.cons.inj hextra).1
            rcases hindent 'e' (by simp) with hletter | hletter <;> cases hletter

-- The word and the character behind it stand in the first line with its break, or behind them.
theorem exists_of_line_append {line later : List Char}
    (h : line ++ ['\n'] ++ later = front ++ ("export".toList ++ c :: rest)) :
    (∃ extra, front = line ++ ['\n'] ++ extra ∧ later = extra ++ ("export".toList ++ c :: rest)) ∨
      ∃ more, line ++ ['\n'] = front ++ ("export".toList ++ c :: more) ∧ rest = more ++ later := by
  rcases List.append_eq_append_iff.mp h with hbehind | ⟨extra, hline, hextra⟩
  · exact .inl hbehind
  rcases List.eq_nil_or_concat' extra with rfl | ⟨extra, d, rfl⟩
  · exact .inl ⟨[], by rw [hline, List.append_nil, List.append_nil], hextra.symm⟩
  rw [← List.append_assoc] at hline
  obtain ⟨rfl, hd⟩ := List.append_inj' hline rfl
  obtain rfl : '\n' = d := (List.cons.inj hd).1
  have hbreak : '\n' ∉ "export".toList := by decide
  obtain ⟨more, hmore⟩ : "export".toList <+: extra ++ ['\n'] := by
    refine (List.prefix_or_prefix_of_prefix ⟨_, rfl⟩ ⟨_, hextra.symm⟩).resolve_right fun hshort => ?_
    exact hbreak (hshort.subset (by simp))
  rw [← hmore, List.append_assoc] at hextra
  have hrest := List.append_cancel_left hextra
  cases more with
  | nil =>
      rw [List.append_nil] at hmore
      exact absurd (by rw [hmore]; simp) hbreak
  | cons e more =>
      obtain ⟨rfl, hlater⟩ := List.cons.inj hrest
      exact .inr ⟨more, by rw [List.append_assoc, ← hmore], hlater⟩

-- Wherever in a script a blank follows `export`, an export stands.
theorem exists_exporting (hlaid : ∀ chunk ∈ chunks, chunk.Laid) (hc : Text.isBlank c = true)
    (hsplit : script chunks ++ ['\n'] = front ++ ("export".toList ++ c :: rest)) :
    ∃ indent gap exported text later, .exporting indent gap exported text ∈ chunks ∧
      c :: rest = gap ++ (exported.words ++ (text ++ '\n' :: later)) ∧
        ∀ d ∈ front.getLast?, d = '\n' ∨ d = ' ' ∨ d = '\t' := by
  induction chunks generalizing front with
  | nil =>
      have hlength := congrArg List.length hsplit
      simp [script] at hlength
      omega
  | cons chunk chunks ih =>
      obtain ⟨hchunk, hchunks⟩ := List.forall_mem_cons.mp hlaid
      obtain ⟨later, hscript, hlater⟩ := script_cons chunk chunks
      rw [hscript] at hsplit
      rcases exists_of_line_append hsplit with ⟨extra, rfl, hextra⟩ | ⟨more, hline, rfl⟩
      · have hscript : script chunks ++ ['\n'] = extra ++ ("export".toList ++ c :: rest) := by
          rcases hlater with ⟨_, hnil⟩ | hlater
          · have hlength := congrArg List.length (hnil.symm.trans hextra)
            simp at hlength
          · exact hlater.symm.trans hextra
        obtain ⟨indent, gap, exported, text, later, hmem, hrest, hlast⟩ := ih hchunks hscript
        refine ⟨indent, gap, exported, text, later, List.mem_cons_of_mem _ hmem, hrest,
          fun d hd => ?_⟩
        rw [List.getLast?_append] at hd
        cases hextra : extra.getLast? with
        | none =>
            rw [hextra, List.getLast?_concat] at hd
            exact .inl (Option.some.inj hd).symm
        | some e =>
            rw [hextra] at hd
            exact hlast d (hextra ▸ hd)
      · obtain ⟨gap, exported, text, rfl, hmore⟩ := hchunk.exists_exporting hc hline
        refine ⟨front, gap, exported, text, later, List.mem_cons_self, ?_, fun d hd => ?_⟩
        · rw [← List.cons_append, hmore]
          simp only [List.append_assoc, List.cons_append, List.nil_append]
        · cases hchunk with
          | exporting hindent => exact .inr (hindent d (List.mem_of_getLast? hd))

end Occurrences

section Places

variable {form behind : Pattern} {indent gap words front back : List Char}

-- Where an export stands, the form reads what stands behind the word and its blanks, or nothing.
theorem Exports.exists_isPrefix (h : Exports form behind) (hnullable : behind.nullable = false)
    (hfirsts : ∀ c, behind.firsts.has c = true → Text.isBlank c = false) (hindent : IsIndent indent)
    (hgap : IsGap gap) (hwords : ∀ c ∈ words.head?, Text.isBlank c = false)
    (hsplit : indent ++ ("export".toList ++ (gap ++ words)) = front ++ back)
    (hreads : Reads form front) : ∃ text, text <+: words ∧ Reads behind text := by
  obtain ⟨indent', gap', text, rfl, hindent', hgap', htext⟩ := h front hreads
  have hletter {indent : List Char} (hindent : IsIndent indent) : ∀ c ∈ indent, (c == 'e') = false :=
    fun c hc => by rcases hindent c hc with rfl | rfl <;> rfl
  have hexport : "export".toList = 'e' :: "xport".toList := by decide
  simp only [hexport, List.append_assoc, List.cons_append] at hsplit
  obtain ⟨_, hrest⟩ := Form.split_inj hsplit (hletter hindent) (hletter hindent')
    (beq_self_eq_true 'e') (beq_self_eq_true 'e')
  have hsame := congrArg Text.trimStart (List.append_cancel_left hrest)
  have hhead : ∀ c ∈ (text ++ back).head?, Text.isBlank c = false := by
    obtain ⟨c, rest, rfl, hc⟩ := htext.exists_first hnullable
    intro d hd
    obtain rfl : c = d := Option.some.inj hd
    exact hfirsts c hc
  rw [Text.trimStart_append_blanks hgap.blank, Text.trimStart_append_blanks hgap'.blank,
    Text.trimStart_eq_self hwords, Text.trimStart_eq_self hhead] at hsame
  exact ⟨text, ⟨back, hsame.symm⟩, htext⟩

-- A form that reads nothing of what stands behind the word does not match in an export.
theorem Exports.barren {read later : List Char} (h : Exports form behind)
    (hnullable : behind.nullable = false)
    (hfirsts : ∀ c, behind.firsts.has c = true → Text.isBlank c = false)
    (hopens : form.Opens "export".toList .blank) (hindent : IsIndent indent) (hgap : IsGap gap)
    (hwords : ∀ c ∈ (words ++ later).head?, Text.isBlank c = false) (hquiet : Quiet words)
    (hlater : ∀ c ∈ later.head?, c = '\n')
    (hapart : ∀ front, Reads behind front → ¬front <+: words ++ later) :
    form.Barren read (indent ++ ("export".toList ++ (gap ++ words))) later := by
  have hsplit : indent ++ ("export".toList ++ (gap ++ words)) =
      (indent ++ ['e']) ++ ("xport".toList ++ (gap ++ words)) := by
    rw [List.append_assoc]
    rfl
  rw [hsplit]
  refine .append ?_ (((hquiet.behind hgap).calm hopens).barren hlater)
  intro passed more hpassed hne
  refine matchAt_eq_none fun front other hfront hreads => ?_
  obtain ⟨indent', rfl, hindent'⟩ : ∃ indent', more = indent' ++ ['e'] ∧ IsIndent indent' := by
    obtain ⟨indent', c, rfl⟩ := (List.eq_nil_or_concat' more).resolve_left hne
    rw [← List.append_assoc] at hpassed
    obtain ⟨rfl, hc⟩ := List.append_inj' hpassed rfl
    exact ⟨indent', by rw [List.cons.inj hc |>.1], fun d hd => hindent d (List.mem_append_right _ hd)⟩
  have hwhole : indent' ++ ("export".toList ++ (gap ++ (words ++ later))) = front ++ other := by
    rw [← hfront]
    simp only [between, List.append_assoc]
    rfl
  obtain ⟨text, htext, hbehind⟩ :=
    h.exists_isPrefix hnullable hfirsts hindent' hgap hwords hwhole hreads
  exact hapart text hbehind htext

end Places

namespace Export

variable {text later : List Char} {exported : Export}

theorem Stands.opened (h : exported.Stands text) : Opened exported.kind.openers exported.words := by
  cases h with
  | declared => exact opened_word _ _
  | expression => exact opened_word _ _
  | value hheading => exact hheading.opened.append _
  | type hheading => exact hheading.opened
  | list => exact opened_word _ _

theorem Stands.not_blank_head (h : exported.Stands text) (later : List Char) :
    ∀ c ∈ (exported.words ++ later).head?, Text.isBlank c = false := by
  exact (h.opened.append later).head exported.kind.not_blank_openers

theorem Stands.quiet_result (h : exported.Stands text) (hquiet : Quiet (exported.words ++ text)) :
    Quiet (exported.result ++ text) := by
  cases h with
  | @declared gap heading name =>
      have hwords : (Export.declared gap heading name).words ++ text =
          ("default".toList ++ gap) ++ (heading ++ name ++ text) := by
        change "default".toList ++ (gap ++ (heading ++ name)) ++ text = _
        simp only [List.append_assoc]
      rw [hwords] at hquiet
      exact hquiet.of_suffix
  | expression => exact hquiet.of_suffix.append_assigned
  | value => exact hquiet
  | type => exact hquiet
  | list => exact hquiet.of_suffix

-- The form of a kind that is replaced earlier reads nothing of the export.
theorem Stands.apart {kind : ExportKind} (h : exported.Stands text)
    (hrank : kind.rank < exported.kind.rank) (hlater : ∀ c ∈ later.head?, c = '\n')
    {front : List Char} (hfront : Reads kind.body front) :
    ¬front <+: exported.words ++ (text ++ later) := by
  by_cases hkind : exported.kind = .expression
  · intro hprefix
    obtain rfl : kind = .declared := by
      rw [hkind] at hrank
      cases kind <;> first | rfl | contradiction
    rw [ExportKind.body] at hfront
    obtain ⟨gap, heading, name, rfl, hgap, hheading, hname⟩ := exists_of_reads_default hfront
    cases h with
    | @expression gap' hgap' hne htext hvalue =>
        refine hvalue later hlater heading name hheading hname ?_
        have hwhole : "default".toList ++ (gap ++ (heading ++ name)) <+:
            "default".toList ++ gap' ++ (text ++ later) := hprefix
        rw [List.append_assoc "default".toList] at hwhole
        obtain ⟨more, hmore⟩ := (List.prefix_append_right_inj _).mp hwhole
        have hhead : ∀ c ∈ (heading ++ name ++ more).head?, Text.isBlank c = false := by
          have hopened := (hheading.opened.append name).append more
          exact hopened.head (by decide)
        have htextHead : ∀ c ∈ (text ++ later).head?, Text.isBlank c = false := by
          rwa [List.head?_append_of_ne_nil _ hne]
        have hsame := congrArg Text.trimStart hmore
        rw [List.append_assoc, Text.trimStart_append_blanks hgap.blank,
          Text.trimStart_append_blanks hgap'.blank, Text.trimStart_eq_self hhead,
          Text.trimStart_eq_self htextHead] at hsame
        exact ⟨more, hsame⟩
    | _ => cases hkind
  · exact (h.opened.append _).not_isPrefix (ExportKind.opened_of_reads hrank hfront)
      (ExportKind.distinct_openers hrank hkind)

end Export

end LivePreview.Linking
