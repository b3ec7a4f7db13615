import LivePreview.Linking.ScriptBody
import LivePreview.Proofs.Linking.Grammar
import LivePreview.Proofs.Script.Imports

namespace LivePreview.Linking

open Pattern Script
open ImportPatch (IsGap isGap_of_reads)
open Spot (between)

-- Blanks within a line.
def IsIndent (indent : List Char) : Prop := ∀ c ∈ indent, c = ' ' ∨ c = '\t'

-- A word with blanks behind it, or nothing.
inductive MaybeWord (word : String) : List Char → Prop
  | absent : MaybeWord word []
  | present {gap : List Char} (hgap : IsGap gap) : MaybeWord word (word.toList ++ gap)

-- What stands between the word `function` and a name: blanks, and a star for a generator.
inductive IsMark : List Char → Prop
  | plain {gap : List Char} (hgap : ∀ c ∈ gap, Text.isBlank c = true) : IsMark gap
  | star {gap gap' : List Char} (hgap : ∀ c ∈ gap, Text.isBlank c = true)
      (hgap' : ∀ c ∈ gap', Text.isBlank c = true) : IsMark (gap ++ '*' :: gap')

-- What opens the declaration of a function or a class behind `default`, up to its name. A function may
-- follow its word without a blank.
inductive DefaultHeading : List Char → Prop
  | function {async mark : List Char} (hasync : MaybeWord "async" async) (hmark : IsMark mark) :
      DefaultHeading (async ++ ("function".toList ++ mark))
  | ofClass {gap : List Char} (hgap : IsGap gap) : DefaultHeading ("class".toList ++ gap)

-- The word that opens the declaration of a value, and what keeps it apart from the name.
inductive ValueWord : List Char → Prop
  | function {gap : List Char} (hgap : IsGap gap) : ValueWord ("function".toList ++ gap)
  | generator {gap gap' : List Char} (hgap : ∀ c ∈ gap, Text.isBlank c = true)
      (hgap' : IsGap gap') : ValueWord ("function".toList ++ (gap ++ '*' :: gap'))
  | other {word : String} {gap : List Char} (hword : word ∈ ["class", "const", "let", "var", "enum"])
      (hgap : IsGap gap) : ValueWord (word.toList ++ gap)

-- What opens the declaration of a value, up to its name.
inductive ValueHeading : List Char → Prop
  | intro {async abstract word : List Char} (hasync : MaybeWord "async" async)
      (habstract : MaybeWord "abstract" abstract) (hword : ValueWord word) :
      ValueHeading (async ++ (abstract ++ word))

-- What opens the declaration of a type, with one blank behind it.
inductive TypeHeading : List Char → Prop
  | intro {declare : List Char} {word : String} {c : Char} (hdeclare : MaybeWord "declare" declare)
      (hword : word ∈ ["type", "interface"]) (hc : Text.isBlank c = true) :
      TypeHeading (declare ++ (word.toList ++ [c]))

-- A character that opens a name as the linker knows it.
def opensName (c : Char) : Bool :=
  ('A' ≤ c && c ≤ 'Z') || ('a' ≤ c && c ≤ 'z') || c == '_' || c == '$'

-- The name of a declaration.
inductive IsDeclared : List Char → Prop
  | intro {c : Char} {rest : List Char} (hc : opensName c = true)
      (hrest : ∀ d ∈ rest, inIdentifier d = true) : IsDeclared (c :: rest)

-- What ends a list in front of the text.
inductive EndsList (later : List Char) : List Char → Prop
  | mark {indent : List Char} (hindent : IsIndent indent) : EndsList later (indent ++ [';'])
  | silent {indent : List Char} (hindent : IsIndent indent)
      (hlater : ∀ c ∈ later.head?, c ≠ ' ' ∧ c ≠ '\t' ∧ c ≠ ';') : EndsList later indent

section Names

variable {name later : List Char} {c : Char}

theorem nameStart_has : (CharClass.union (.range 'A' 'Z')
    (.union (.range 'a' 'z') (.ofList ['_', '$']))).has c = opensName c := by
  simp [CharClass.has, CharClass.ofList, opensName, Bool.or_assoc]

theorem not_opensName_of_isBlank (h : Text.isBlank c = true) : opensName c = false :=
  Text.not_of_isBlank (by decide +kernel) h

theorem IsDeclared.head (h : IsDeclared name) (hc : c ∈ (name ++ later).head?) :
    opensName c = true := by
  obtain ⟨hfirst, _⟩ := h
  exact Option.some.inj hc ▸ hfirst

theorem IsDeclared.not_blank (h : IsDeclared name) (hc : c ∈ (name ++ later).head?) :
    Text.isBlank c = false := by
  by_contra hblank
  have hnot := not_opensName_of_isBlank (by simpa using hblank)
  rw [h.head hc] at hnot
  cases hnot

theorem IsDeclared.not_star (h : IsDeclared name) (hc : c ∈ (name ++ later).head?) : c ≠ '*' := by
  rintro rfl
  have hstar := h.head hc
  revert hstar
  decide

end Names

section Opened

variable {words : List String} {text later : List Char}

-- One of the words opens the text.
def Opened (words : List String) (text : List Char) : Prop := ∃ word ∈ words, word.toList <+: text

-- No word of one list opens one of the other list, nor the other way round.
def Distinct (words others : List String) : Prop :=
  ∀ word ∈ words, ∀ other ∈ others, ¬word.toList <+: other.toList ∧ ¬other.toList <+: word.toList

-- What is asked of the head of a text is asked of one character at the most, and not of them all.
instance decidableForallHead {p : Char → Prop} [DecidablePred p] (head : Option Char) :
    Decidable (∀ c ∈ head, p c) :=
  Option.decidableForallMem head

instance (words others : List String) : Decidable (Distinct words others) := by
  unfold Distinct
  infer_instance

theorem Opened.append (h : Opened words text) (later : List Char) : Opened words (text ++ later) := by
  obtain ⟨word, hword, hopen⟩ := h
  exact ⟨word, hword, hopen.trans (List.prefix_append _ _)⟩

theorem Opened.mono {others : List String} (h : Opened words text) (hsub : words ⊆ others) :
    Opened others text := by
  obtain ⟨word, hword, hopen⟩ := h
  exact ⟨word, hsub hword, hopen⟩

theorem Opened.head {p : Char → Prop} (h : Opened words text)
    (hwords : ∀ word ∈ words, word.toList ≠ [] ∧ ∀ c ∈ word.toList.head?, p c) :
    ∀ c ∈ text.head?, p c := by
  obtain ⟨word, hword, rest, rfl⟩ := h
  obtain ⟨hne, hhead⟩ := hwords word hword
  rwa [List.head?_append_of_ne_nil _ hne]

theorem Opened.not_isPrefix {others : List String} {front : List Char} (h : Opened words text)
    (hfront : Opened others front) (hwords : Distinct words others) : ¬front <+: text := by
  intro hprefix
  obtain ⟨word, hword, hopen⟩ := h
  obtain ⟨other, hother, hopen'⟩ := hfront
  obtain ⟨hnot, hnot'⟩ := hwords word hword other hother
  exact (List.prefix_or_prefix_of_prefix hopen (hopen'.trans hprefix)).elim hnot hnot'

theorem opened_word (word : String) (later : List Char) : Opened [word] (word.toList ++ later) :=
  ⟨word, List.mem_singleton_self _, List.prefix_append _ _⟩

theorem MaybeWord.opened {word : String} (h : MaybeWord word text) (hlater : Opened words later) :
    Opened (word :: words) (text ++ later) := by
  cases h with
  | absent => exact hlater.mono (List.subset_cons_self _ _)
  | present => exact ⟨word, List.mem_cons_self, by simp⟩

theorem DefaultHeading.opened (h : DefaultHeading text) :
    Opened ["async", "function", "class"] text := by
  cases h with
  | function hasync =>
      exact (hasync.opened (opened_word "function" _)).mono (by decide)
  | ofClass => exact (opened_word "class" _).mono (by decide)

theorem ValueWord.opened (h : ValueWord text) :
    Opened ["function", "class", "const", "let", "var", "enum"] text := by
  cases h with
  | function => exact (opened_word "function" _).mono (by decide)
  | generator => exact (opened_word "function" _).mono (by decide)
  | other hword => exact ⟨_, List.mem_cons_of_mem _ hword, List.prefix_append _ _⟩

theorem ValueHeading.opened (h : ValueHeading text) :
    Opened ["async", "abstract", "function", "class", "const", "let", "var", "enum"] text := by
  obtain ⟨hasync, habstract, hword⟩ := h
  exact hasync.opened (habstract.opened hword.opened)

theorem TypeHeading.opened (h : TypeHeading text) : Opened ["declare", "type", "interface"] text := by
  obtain ⟨hdeclare, hword, _⟩ := h
  exact hdeclare.opened ⟨_, hword, List.prefix_append _ _⟩

end Opened

section Bodies

-- What stands behind the words `export default` in the declaration of a function, and of a class.
def defaultFunction : Pattern :=
  all [Form.maybeWord "async", Pattern.text "function", blanks?, maybe (char '*'), blanks?,
    group 3 Pattern.name]

def defaultClass : Pattern := all [Pattern.text "class", blanks, group 4 Pattern.name]

def defaultBody : Pattern := group 2 (oneOf [defaultFunction, defaultClass])

-- What stands behind the word `export` in the declaration of a value, the name in the group.
def valueWords (index : Nat) : Pattern :=
  all [Form.maybeWord "async", Form.maybeWord "abstract", Form.valueKeyword, blanks,
    group index Pattern.name]

-- What stands behind the word `export` in the declaration of a type.
def typeWords : Pattern :=
  all [Form.maybeWord "declare", oneOf (["type", "interface"].map Pattern.text), Pattern.set .blank]

-- What stands behind the word `export` in a list.
def listBody : Pattern :=
  all [maybe (group 1 (Pattern.seq (Pattern.text "type") blanks)), char '\x7b',
    group 2 (star (noneOf "\x7d")), char '\x7d', Form.statementEnd]

end Bodies

section Reading

variable {text : List Char}

theorem maybeWord_of_reads {word : String} (h : Reads (Form.maybeWord word) text) :
    MaybeWord word text := by
  rcases h.eq_nil_or_of_maybe with rfl | h
  · exact .absent
  · obtain ⟨_, gap, rfl, hword, hgap⟩ := h.exists_seq
    rw [hword.eq_chars]
    exact .present (isGap_of_reads hgap)

theorem isDeclared_of_reads (h : Reads Pattern.name text) : IsDeclared text := by
  obtain ⟨_, rest, rfl, hfirst, hrest⟩ := h.exists_seq
  obtain ⟨c, rfl, hc⟩ := hfirst.exists_set
  exact .intro (nameStart_has ▸ hc) hrest.of_rounds_set.2

theorem mem_of_reads_oneOf {words : List String}
    (h : Reads (oneOf (words.map Pattern.text)) text) : ∃ word ∈ words, text = word.toList := by
  induction words with
  | nil =>
      obtain ⟨c, _, hc⟩ := h.exists_set
      cases hc
  | cons first words ih =>
      cases words with
      | nil => exact ⟨first, List.mem_cons_self, h.eq_chars⟩
      | cons second words =>
          cases h with
          | left h => exact ⟨first, List.mem_cons_self, h.eq_chars⟩
          | right h =>
              obtain ⟨word, hword, rfl⟩ := ih h
              exact ⟨word, List.mem_cons_of_mem _ hword, rfl⟩

theorem opened_of_reads_keyword (h : Reads Form.valueKeyword text) :
    Opened ["function", "class", "const", "let", "var", "enum"] text := by
  cases h with
  | left h =>
      obtain ⟨_, rest, rfl, hword, _⟩ := h.exists_all
      rw [hword.eq_chars]
      exact (opened_word "function" _).mono (by decide)
  | right h =>
      have hother : Reads (oneOf (["class", "const", "let", "var", "enum"].map Pattern.text)) text :=
        h
      obtain ⟨word, hword, rfl⟩ := mem_of_reads_oneOf hother
      exact ⟨word, List.mem_cons_of_mem _ hword, List.prefix_rfl⟩

theorem opened_of_reads_valueWords {index : Nat} (h : Reads (valueWords index) text) :
    Opened ["async", "abstract", "function", "class", "const", "let", "var", "enum"] text := by
  obtain ⟨_, _, rfl, hasync, h⟩ := h.exists_all
  obtain ⟨_, _, rfl, habstract, h⟩ := h.exists_all
  obtain ⟨_, later, rfl, hword, _⟩ := h.exists_all
  exact (maybeWord_of_reads hasync).opened
    ((maybeWord_of_reads habstract).opened ((opened_of_reads_keyword hword).append later))

theorem opened_of_reads_typeWords (h : Reads typeWords text) :
    Opened ["declare", "type", "interface"] text := by
  obtain ⟨_, _, rfl, hdeclare, h⟩ := h.exists_all
  obtain ⟨_, later, rfl, hword, _⟩ := h.exists_all
  obtain ⟨word, hmem, rfl⟩ := mem_of_reads_oneOf hword
  exact (maybeWord_of_reads hdeclare).opened ⟨word, hmem, List.prefix_append _ _⟩

theorem exists_of_reads_defaultBody (h : Reads defaultBody text) :
    ∃ heading name, text = heading ++ name ∧ DefaultHeading heading ∧ IsDeclared name := by
  cases h.of_group with
  | left h =>
      obtain ⟨async, _, rfl, hasync, h⟩ := h.exists_all
      obtain ⟨_, _, rfl, hword, h⟩ := h.exists_all
      obtain ⟨gap, _, rfl, hgap, h⟩ := h.exists_all
      obtain ⟨star, _, rfl, hstar, h⟩ := h.exists_all
      obtain ⟨gap', name, rfl, hgap', hname⟩ := h.exists_all
      have hasync := maybeWord_of_reads hasync
      have hgap := hgap.of_rounds_set.2
      have hgap' := hgap'.of_rounds_set.2
      refine ⟨async ++ ("function".toList ++ (gap ++ (star ++ gap'))), name, ?_, ?_,
        isDeclared_of_reads hname.of_group⟩
      · rw [hword.eq_chars]
        simp only [List.append_assoc]
      · rcases hstar.eq_nil_or_of_maybe with rfl | hstar
        · exact .function hasync (.plain (List.forall_mem_append.mpr ⟨hgap, hgap'⟩))
        · rw [hstar.eq_char]
          exact .function hasync (.star hgap hgap')
  | right h =>
      obtain ⟨_, _, rfl, hword, h⟩ := h.exists_all
      obtain ⟨gap, name, rfl, hgap, hname⟩ := h.exists_all
      refine ⟨"class".toList ++ gap, name, ?_, .ofClass (isGap_of_reads hgap),
        isDeclared_of_reads hname.of_group⟩
      rw [hword.eq_chars, List.append_assoc]

theorem exists_of_reads_default (h : Reads (all [Pattern.text "default", blanks, defaultBody]) text) :
    ∃ gap heading name, text = "default".toList ++ (gap ++ (heading ++ name)) ∧ IsGap gap ∧
      DefaultHeading heading ∧ IsDeclared name := by
  obtain ⟨_, _, rfl, hword, h⟩ := h.exists_all
  obtain ⟨gap, body, rfl, hgap, h⟩ := h.exists_all
  have hbody : Reads defaultBody body := by rwa [all] at h
  obtain ⟨heading, name, rfl, hheading, hname⟩ := exists_of_reads_defaultBody hbody
  exact ⟨gap, heading, name, by rw [hword.eq_chars], isGap_of_reads hgap, hheading, hname⟩

-- Whatever the form reads is an indent, `export` with blanks, and what the other pattern reads.
def Exports (form behind : Pattern) : Prop :=
  ∀ text, Reads form text → ∃ indent gap later,
    text = indent ++ ("export".toList ++ (gap ++ later)) ∧
      IsIndent indent ∧ IsGap gap ∧ Reads behind later

theorem exports_line (index : Nat) (more : List Pattern) :
    Exports (all (lineStart :: group index Form.indent :: Pattern.text "export" :: blanks :: more))
      (all more) := by
  intro text h
  obtain ⟨_, _, rfl, hstart, h⟩ := h.exists_all
  obtain ⟨indent, _, rfl, hindent, h⟩ := h.exists_all
  obtain ⟨_, _, rfl, hword, h⟩ := h.exists_all
  obtain ⟨gap, later, rfl, hgap, h⟩ := h.exists_all
  refine ⟨indent, gap, later, ?_, fun c hc => ?_, isGap_of_reads hgap, h⟩
  · rw [hstart.eq_assert, hword.eq_chars]
    rfl
  · have hhas := hindent.of_group.of_rounds_set.2 c hc
    simpa [CharClass.has, CharClass.ofList] using hhas

theorem exists_of_reads_exportWord {more : List Pattern}
    (h : Reads (all (Form.exportWord :: more)) text) :
    ∃ gap later, text = "export".toList ++ (gap ++ later) ∧ IsGap gap ∧ Reads (all more) later := by
  obtain ⟨_, later, rfl, hexport, hlater⟩ := h.exists_all
  obtain ⟨_, _, rfl, hedge, hexport⟩ := hexport.exists_all
  obtain ⟨_, gap, rfl, hword, hgap⟩ := hexport.exists_all
  refine ⟨gap, later, ?_, isGap_of_reads hgap, hlater⟩
  rw [hedge.eq_assert, hword.eq_chars]
  simp

theorem exports_word (more : List Pattern) :
    Exports (all (Form.exportWord :: more)) (all more) := by
  intro text h
  obtain ⟨gap, later, rfl, hgap, hlater⟩ := exists_of_reads_exportWord h
  exact ⟨[], gap, later, rfl, List.forall_mem_nil _, hgap, hlater⟩

end Reading

section Taking

variable {spot : Spot} {text later gap heading name : List Char}

theorem takes_gap (h : IsGap gap) (hlater : ∀ c ∈ later.head?, Text.isBlank c = false) :
    blanks.Takes spot gap later [] :=
  takes_plus h.nonempty h.blank hlater

theorem takes_blanks (h : ∀ c ∈ gap, Text.isBlank c = true)
    (hlater : ∀ c ∈ later.head?, Text.isBlank c = false) : blanks?.Takes spot gap later [] :=
  takes_star h hlater

theorem takes_indent (h : IsIndent text) (hlater : ∀ c ∈ later.head?, c ≠ ' ' ∧ c ≠ '\t') :
    Form.indent.Takes spot text later [] := by
  refine takes_star (fun c hc => ?_) fun c hc => ?_
  · rcases h c hc with rfl | rfl <;> rfl
  · simpa [CharClass.has, CharClass.ofList] using hlater c hc

theorem takes_maybeWord {word : String} {words : List String} (h : MaybeWord word text)
    (hlater : Opened words later) (hwords : Distinct words [word])
    (hhead : ∀ other ∈ words, other.toList ≠ [] ∧
      ∀ c ∈ other.toList.head?, Text.isBlank c = false) :
    (Form.maybeWord word).Takes spot text later [] := by
  cases h with
  | absent =>
      refine takes_maybe_nil fun front behind hsplit hreads => ?_
      obtain ⟨_, gap, rfl, hword, _⟩ := hreads.exists_seq
      rw [hword.eq_chars] at hsplit
      refine hlater.not_isPrefix (opened_word word []) hwords ?_
      exact ⟨gap ++ behind, by rw [hsplit, List.append_nil, List.append_assoc]⟩
  | present hgap => exact ((takes_text word).seq (takes_gap hgap (hlater.head hhead))).maybe

theorem takes_name (h : IsDeclared name) (hlater : ∀ c ∈ later.head?, inIdentifier c = false) :
    Pattern.name.Takes spot name later [] := by
  obtain @⟨c, rest, hc, hrest⟩ := h
  have hfirst : nameStart.Takes spot [c] (rest ++ later) [] := takes_set (nameStart_has.trans hc)
  have hmore : (star nameChar).Takes (spot.skip 1) rest later [] := takes_star hrest hlater
  exact hfirst.seq hmore

-- No star follows.
theorem takes_noStar (hlater : ∀ c ∈ later.head?, c ≠ '*') :
    (maybe (char '*')).Takes spot [] later [] := by
  refine takes_maybe_nil fun front behind hsplit hreads => ?_
  rw [hreads.eq_char] at hsplit
  exact hlater '*' (by rw [hsplit]; rfl) rfl

theorem takes_mark {mark : List Char} {groups : List (Nat × List Char)} {next : Pattern}
    (hmark : IsMark mark) (hname : IsDeclared name)
    (hnext : ∀ {spot : Spot}, next.Takes spot name later groups) :
    (all [blanks?, maybe (char '*'), blanks?, next]).Takes spot (mark ++ name) later groups := by
  have hblank : ∀ c ∈ (name ++ later).head?, Text.isBlank c = false := fun _ hc => hname.not_blank hc
  have hnone {spot : Spot} : blanks?.Takes spot [] (name ++ later) [] :=
    takes_blanks (List.forall_mem_nil _) hblank
  cases hmark with
  | plain hgap =>
      have hbehind {spot : Spot} : (all [maybe (char '*'), blanks?, next]).Takes spot ([] ++ name)
          later (groups ++ [] ++ []) :=
        (takes_noStar fun _ hc => hname.not_star hc).seq (hnone.seq hnext)
      have hwhole : (all [blanks?, maybe (char '*'), blanks?, next]).Takes spot (mark ++ ([] ++ name))
          later (groups ++ [] ++ [] ++ []) := (takes_blanks hgap hblank).seq hbehind
      simpa only [List.append_nil, List.nil_append] using hwhole
  | @star gap gap' hgap hgap' =>
      have hstar : ∀ c ∈ ('*' :: (gap' ++ name ++ later)).head?, Text.isBlank c = false :=
        fun c hc => Option.some.inj hc ▸ by decide
      have hbehind {spot : Spot} : (all [maybe (char '*'), blanks?, next]).Takes spot
          (['*'] ++ (gap' ++ name)) later (groups ++ [] ++ []) :=
        (takes_char '*').maybe.seq ((takes_blanks hgap' hblank).seq hnext)
      have hwhole : (all [blanks?, maybe (char '*'), blanks?, next]).Takes spot
          (gap ++ (['*'] ++ (gap' ++ name))) later (groups ++ [] ++ [] ++ []) :=
        (takes_blanks hgap hstar).seq hbehind
      simpa only [List.append_nil, List.append_assoc, List.cons_append, List.nil_append] using hwhole

-- The name is in one group or in the other.
theorem exists_takes_defaultBody (hheading : DefaultHeading heading) (hname : IsDeclared name) :
    ∃ index, (index = 3 ∨ index = 4) ∧ ∀ (spot : Spot) (later : List Char),
      (∀ c ∈ later.head?, inIdentifier c = false) →
        defaultBody.Takes spot (heading ++ name) later [(2, heading ++ name), (index, name)] := by
  have hgroup (index : Nat) {spot : Spot} {later : List Char}
      (hlater : ∀ c ∈ later.head?, inIdentifier c = false) :
      (group index Pattern.name).Takes spot name later [(index, name)] :=
    (takes_name hname hlater).group index
  cases hheading with
  | @function async mark hasync hmark =>
      refine ⟨3, .inl rfl, fun spot later hlater => ?_⟩
      have hword : Opened ["function"] ("function".toList ++ (mark ++ name) ++ later) :=
        (opened_word _ _).append later
      have hfunction : defaultFunction.Takes spot (async ++ ("function".toList ++ (mark ++ name)))
          later [(3, name)] :=
        (takes_maybeWord hasync hword (by decide) (by decide)).seq
          ((takes_text "function").seq (takes_mark hmark hname (hgroup 3 hlater)))
      rw [List.append_assoc, List.append_assoc]
      exact hfunction.left.group 2
  | @ofClass gap hgap =>
      refine ⟨4, .inr rfl, fun spot later hlater => ?_⟩
      have hclass : defaultClass.Takes spot ("class".toList ++ (gap ++ name)) later [(4, name)] :=
        (takes_text "class").seq
          ((takes_gap hgap fun _ hc => hname.not_blank hc).seq (hgroup 4 hlater))
      rw [List.append_assoc]
      intro hrest
      refine (hclass.right fun front behind hsplit hreads => ?_).group 2 hrest
      obtain ⟨c, front, rfl, hc⟩ := hreads.exists_first rfl
      obtain rfl : 'c' = c := (List.cons.inj (hrest.symm.trans hsplit)).1
      revert hc
      decide

-- One of several words, none of which opens another one.
theorem takes_oneOf_text {word : String} {words : List String} (hword : word ∈ words)
    (hwords : ∀ other ∈ words, other.toList <+: word.toList ∨ word.toList <+: other.toList →
      other = word) : (oneOf (words.map Pattern.text)).Takes spot word.toList later [] := by
  induction words with
  | nil => cases hword
  | cons first words ih =>
      cases words with
      | nil =>
          obtain rfl := List.mem_singleton.mp hword
          exact takes_text word
      | cons second words =>
          by_cases hfirst : first = word
          · subst hfirst
            exact (takes_text first).left
          · have hlater := ih ((List.mem_cons.mp hword).resolve_left (Ne.symm hfirst))
              fun other hother => hwords other (List.mem_cons_of_mem _ hother)
            refine fun hrest => hlater.right (fun front behind hsplit hreads => ?_) hrest
            rw [hreads.eq_chars] at hsplit
            refine hfirst (hwords first List.mem_cons_self ?_)
            exact List.prefix_or_prefix_of_prefix ⟨behind, hsplit.symm⟩ ⟨later, hrest.symm⟩

theorem takes_keyword {word : String} (hword : word ∈ ["class", "const", "let", "var", "enum"]) :
    Form.valueKeyword.Takes spot word.toList later [] := by
  have hwords : ∀ word ∈ ["class", "const", "let", "var", "enum"],
      ∀ other ∈ ["class", "const", "let", "var", "enum"],
        other.toList <+: word.toList ∨ word.toList <+: other.toList → other = word := by decide
  have hletters : ∀ word ∈ ["class", "const", "let", "var", "enum"],
      word.toList ≠ [] ∧ ∀ c ∈ word.toList.head?, c ≠ 'f' := by decide
  have hother : (oneOf (["class", "const", "let", "var", "enum"].map Pattern.text)).Takes spot
      word.toList later [] := takes_oneOf_text hword (hwords word hword)
  refine fun hrest => hother.right (fun front behind hsplit hreads => ?_) hrest
  obtain ⟨c, front, rfl, hc⟩ := hreads.exists_first rfl
  have hhas : (CharClass.one 'f').has c = true := hc
  have hopened : Opened _ spot.rest := ⟨word, hword, ⟨later, hrest.symm⟩⟩
  refine hopened.head hletters c (by rw [hsplit]; rfl) ?_
  simpa [CharClass.has] using hhas

theorem takes_valueWord {index : Nat} (hword : ValueWord text) (hname : IsDeclared name)
    (hlater : ∀ c ∈ later.head?, inIdentifier c = false) :
    (Pattern.seq Form.valueKeyword (Pattern.seq blanks (group index Pattern.name))).Takes spot
      (text ++ name) later [(index, name)] := by
  have hblank : ∀ c ∈ (name ++ later).head?, Text.isBlank c = false := fun _ hc => hname.not_blank hc
  have hbehind {gap : List Char} (hgap : IsGap gap) {spot : Spot} :
      (Pattern.seq blanks (group index Pattern.name)).Takes spot (gap ++ name) later
        [(index, name)] :=
    (takes_gap hgap hblank).seq ((takes_name hname hlater).group index)
  have hfunction {text : List Char} (h : (Pattern.seq (Pattern.text "function") (Pattern.seq blanks?
      (Pattern.seq (maybe (char '*')) (Pattern.seq blanks (group index Pattern.name))))).Takes spot
        text later [(index, name)]) : (Pattern.seq Form.valueKeyword
          (Pattern.seq blanks (group index Pattern.name))).Takes spot text later [(index, name)] := by
    have hgrouped : (Pattern.seq (all [Pattern.text "function", blanks?, maybe (char '*')])
        (Pattern.seq blanks (group index Pattern.name))).Takes spot text later [(index, name)] := h
    exact hgrouped.seq_left
  cases hword with
  | @function gap hgap =>
      obtain ⟨front, c, rfl⟩ := (List.eq_nil_or_concat' gap).resolve_left hgap.nonempty
      obtain ⟨hfront, hc⟩ := List.forall_mem_append.mp hgap.blank
      rw [List.forall_mem_singleton] at hc
      have hlast : IsGap [c] := ⟨List.cons_ne_nil _ _, List.forall_mem_singleton.mpr hc⟩
      have hnoStar : ∀ d ∈ (c :: (name ++ later)).head?, d ≠ '*' := fun d hd => by
        obtain rfl : c = d := Option.some.inj hd
        rintro rfl
        revert hc
        decide
      -- The last blank is left for what stands behind the word and a star.
      have hblanks {spot : Spot} : (Pattern.seq blanks? (Pattern.seq (maybe (char '*'))
          (Pattern.seq blanks (group index Pattern.name)))).Takes spot (front ++ c :: name) later
            [(index, name)] := by
        refine takes_star_back hfront hc hblank (fun text other h hreads => ?_)
          ((takes_noStar hnoStar).seq (hbehind hlast))
        obtain ⟨d, text, rfl, hd⟩ := hreads.exists_first rfl
        have hhead : d ∈ (name ++ later).head? := by rw [h]; rfl
        have hhas : (CharClass.union (.one '*') .blank).has d = true := hd
        simp [CharClass.has, hname.not_blank hhead, hname.not_star hhead] at hhas
      have htext : "function".toList ++ (front ++ [c]) ++ name =
          "function".toList ++ (front ++ c :: name) := by simp
      rw [htext]
      exact hfunction ((takes_text "function").seq hblanks)
  | @generator gap gap' hgap hgap' =>
      have hstar : ∀ c ∈ ('*' :: (gap' ++ name ++ later)).head?, Text.isBlank c = false :=
        fun c hc => Option.some.inj hc ▸ by decide
      have hmore {spot : Spot} : (Pattern.seq (maybe (char '*'))
          (Pattern.seq blanks (group index Pattern.name))).Takes spot (['*'] ++ (gap' ++ name)) later
            [(index, name)] := (takes_char '*').maybe.seq (hbehind hgap')
      have htext : "function".toList ++ (gap ++ '*' :: gap') ++ name =
          "function".toList ++ (gap ++ (['*'] ++ (gap' ++ name))) := by simp
      rw [htext]
      exact hfunction ((takes_text "function").seq ((takes_blanks hgap hstar).seq hmore))
  | other hword hgap =>
      rw [List.append_assoc]
      exact (takes_keyword hword).seq (hbehind hgap)

theorem takes_valueWords {index : Nat} (hheading : ValueHeading heading) (hname : IsDeclared name)
    (hlater : ∀ c ∈ later.head?, inIdentifier c = false) :
    (valueWords index).Takes spot (heading ++ name) later [(index, name)] := by
  obtain @⟨async, abstract, word, hasync, habstract, hword⟩ := hheading
  have hopened : Opened _ (word ++ name ++ later) := (hword.opened.append name).append later
  have hopened' : Opened _ (abstract ++ (word ++ name) ++ later) :=
    (habstract.opened (hword.opened.append name)).append later
  have htext : async ++ (abstract ++ word) ++ name = async ++ (abstract ++ (word ++ name)) := by
    simp only [List.append_assoc]
  rw [htext]
  exact (takes_maybeWord hasync hopened' (by decide) (by decide)).seq
    ((takes_maybeWord habstract hopened (by decide) (by decide)).seq
      (takes_valueWord hword hname hlater))

theorem takes_typeWords (hheading : TypeHeading heading) :
    typeWords.Takes spot heading later [] := by
  obtain @⟨declare, word, c, hdeclare, hword, hc⟩ := hheading
  have hopened : Opened ["type", "interface"] (word.toList ++ [c] ++ later) :=
    ⟨word, hword, by simp⟩
  have hwords : ∀ word ∈ ["type", "interface"], ∀ other ∈ ["type", "interface"],
      other.toList <+: word.toList ∨ word.toList <+: other.toList → other = word := by decide
  have hblank {spot : Spot} : (Pattern.set .blank).Takes spot [c] later [] := takes_set hc
  exact (takes_maybeWord hdeclare hopened (by decide) (by decide)).seq
    ((takes_oneOf_text hword (hwords word hword)).seq hblank)

theorem EndsList.takes (h : EndsList later text) : Form.statementEnd.Takes spot text later [] := by
  cases h with
  | @mark indent hindent =>
      refine (takes_indent hindent fun c hc => ?_).seq (takes_char ';').maybe
      exact Option.some.inj hc ▸ by decide
  | silent hindent hlater =>
      have hnone {spot : Spot} : (maybe (char ';')).Takes spot [] later [] := by
        refine takes_maybe_nil fun front behind hsplit hreads => ?_
        rw [hreads.eq_char] at hsplit
        exact (hlater ';' (by rw [hsplit]; rfl)).2.2 rfl
      have hindents {spot : Spot} : Form.indent.Takes spot text ([] ++ later) [] :=
        takes_indent hindent fun c hc => ⟨(hlater c hc).1, (hlater c hc).2.1⟩
      have hend : Form.statementEnd.Takes spot (text ++ []) later [] := hindents.seq hnone
      rwa [List.append_nil] at hend

-- What stands between two braces.
theorem takes_items {index : Nat} {items : List Char} (hitems : '\x7d' ∉ items) :
    (group index (star (noneOf "\x7d"))).Takes spot items ('\x7d' :: later) [(index, items)] := by
  have hhas (c : Char) : (CharClass.not (.ofList "\x7d".toList)).has c = true ↔ c ≠ '\x7d' := by
    simp [CharClass.has, CharClass.ofList]
  refine (takes_star (fun c hc => (hhas c).mpr ?_) fun c hc => ?_).group index
  · rintro rfl
    exact hitems hc
  · obtain rfl := Option.some.inj hc
    decide

theorem takes_listBody {items tail : List Char} (hitems : '\x7d' ∉ items)
    (htail : EndsList later tail) :
    listBody.Takes spot ('\x7b' :: (items ++ '\x7d' :: tail)) later [(2, items)] := by
  have hnone {spot : Spot} : (maybe (group 1 (Pattern.seq (Pattern.text "type") blanks))).Takes spot
      [] ('\x7b' :: (items ++ '\x7d' :: tail) ++ later) [] := by
    refine takes_maybe_nil fun front behind hsplit hreads => ?_
    obtain ⟨c, front, rfl, hc⟩ := hreads.exists_first rfl
    obtain rfl : '\x7b' = c := (List.cons.inj hsplit).1
    revert hc
    decide
  exact hnone.seq ((takes_char '\x7b').seq ((takes_items hitems).seq
    ((takes_char '\x7d').seq htail.takes)))

theorem takes_default (hgap : IsGap gap) (hlater : ∀ c ∈ later.head?, Text.isBlank c = false) :
    (all [Pattern.text "default", blanks]).Takes spot ("default".toList ++ gap) later [] :=
  (takes_text "default").seq (takes_gap hgap hlater)

end Taking

section Statement

variable {spot : Spot} {indent gap behind later : List Char} {next : Pattern} {more : List Pattern}
  {groups : List (Nat × List Char)}

-- A statement on its own line.
theorem takes_exportLine (index : Nat) (hline : ∀ c ∈ spot.last, c = '\n') (hindent : IsIndent indent)
    (hgap : IsGap gap) (hbehind : ∀ c ∈ (behind ++ later).head?, Text.isBlank c = false)
    (hbody : ∀ {spot : Spot}, (all (next :: more)).Takes spot behind later groups) :
    (all (lineStart :: group index Form.indent :: Pattern.text "export" :: blanks :: next ::
      more)).Takes spot (indent ++ ("export".toList ++ (gap ++ behind))) later
        (groups ++ [(index, indent)]) := by
  have hstart : lineStart.Takes spot [] (indent ++ ("export".toList ++ (gap ++ behind)) ++ later) [] :=
    takes_assert fun _ => by simpa [Assertion.holds, Option.all_eq_true] using hline
  have hindents {spot : Spot} : (group index Form.indent).Takes spot indent
      ("export".toList ++ (gap ++ behind) ++ later) [(index, indent)] := by
    refine (takes_indent hindent fun c hc => ?_).group index
    obtain rfl : 'e' = c := Option.some.inj hc
    decide
  have hword {spot : Spot} : (all (Pattern.text "export" :: blanks :: next :: more)).Takes spot
      ("export".toList ++ (gap ++ behind)) later (groups ++ [] ++ []) :=
    (takes_text "export").seq ((takes_gap hgap hbehind).seq hbody)
  have hwhole : (all (lineStart :: group index Form.indent :: Pattern.text "export" :: blanks ::
      next :: more)).Takes spot ([] ++ (indent ++ ("export".toList ++ (gap ++ behind)))) later
        (groups ++ [] ++ [] ++ [(index, indent)] ++ []) := hstart.seq (hindents.seq hword)
  simpa only [List.nil_append, List.append_nil] using hwhole

-- A statement that may stand anywhere in a line.
theorem takes_exportWord (hedge : ∀ c ∈ spot.last, Text.isWordCharacter c = false) (hgap : IsGap gap)
    (hbehind : ∀ c ∈ (behind ++ later).head?, Text.isBlank c = false)
    (hbody : ∀ {spot : Spot}, (all (next :: more)).Takes spot behind later groups) :
    (all (Form.exportWord :: next :: more)).Takes spot ("export".toList ++ (gap ++ behind)) later
      groups := by
  have hstart : edge.Takes spot [] ("export".toList ++ gap ++ (behind ++ later)) [] := by
    refine takes_assert fun hrest => ?_
    have hletter : Text.isWordCharacter 'e' = true := by decide
    have hright : spot.rest.head?.any Text.isWordCharacter = true := by rw [hrest]; exact hletter
    have hleft : spot.last.any Text.isWordCharacter = false := by
      cases hlast : spot.last with
      | none => rfl
      | some c => exact hedge c hlast
    have hholds : Assertion.wordBoundary.holds spot = (spot.last.any Text.isWordCharacter !=
      spot.rest.head?.any Text.isWordCharacter) := rfl
    rw [hholds, hleft, hright]
    rfl
  have hexport : Form.exportWord.Takes spot ([] ++ ("export".toList ++ gap)) (behind ++ later) [] :=
    hstart.seq ((takes_text "export").seq (takes_gap hgap hbehind))
  have hwhole : (all (Form.exportWord :: next :: more)).Takes spot
      ([] ++ ("export".toList ++ gap) ++ behind) later (groups ++ []) := hexport.seq hbody
  simpa only [List.nil_append, List.append_nil, List.append_assoc] using hwhole

end Statement

end LivePreview.Linking
