import LivePreview.Script.Literal

/-!
The structure of a script: its brackets are balanced and its literals end. The check reads code,
templates and markup; markup is read on trial, and where no element comes about the `<` is an
operator. Every step leaves less text ahead, which is what ends the check.
-/

namespace LivePreview.Script

open Text (Cursor)

/-- The last thing read that is not blank. -/
inductive Token where
  | punctuation (c : Char)
  | word (letters : List Char)
  /-- A string, a template, a regular expression or an element. -/
  | value
deriving DecidableEq, Repr

/-- An opening bracket and the byte offset at which it stands. -/
structure Opening where
  bracket : Char
  offset : Nat
deriving DecidableEq, Repr

/-- What is wrong with the structure of a script. -/
inductive Problem where
  | unexpectedCloser (bracket : Char)
  | unterminatedString
  | unterminatedTemplate
  | unterminatedComment
  | unclosed (bracket : Char) (line : Nat)
deriving DecidableEq, Repr

/-- What a problem is called. -/
def Problem.message : Problem → String
  | unexpectedCloser bracket => s!"Unexpected \"{bracket}\""
  | unterminatedString => "Unterminated string literal"
  | unterminatedTemplate => "Unterminated template literal"
  | unterminatedComment => "Unterminated comment"
  | unclosed bracket line =>
    s!"Unexpected end of file: \"{bracket}\" opened on line {line} is never closed"

/-- A problem and the byte offset at which it shows. -/
structure Issue where
  problem : Problem
  offset : Nat
deriving DecidableEq, Repr

/-- How far the check has come: the text ahead, the brackets that are open, the innermost first, and
the last token. -/
structure Scan extends Cursor where
  openings : List Opening
  last : Option Token
deriving DecidableEq, Repr

/-- Why reading code stops before its closing bracket. -/
inductive Halt where
  /-- The text ends, with these brackets open. -/
  | finished (openings : List Opening)
  | broken (issue : Issue)
deriving DecidableEq, Repr

/-- The bracket that closes an opening one. -/
def closerOf (bracket : Char) : Char :=
  if bracket = '(' then ')' else if bracket = '[' then ']' else '\x7d'

/-- Words after which an expression begins. -/
def expressionWords : List String :=
  ["return", "typeof", "instanceof", "in", "of", "new", "delete", "void", "throw", "case", "do",
    "else", "yield", "await", "import", "export", "default", "from"]

/-- An expression begins after the word. -/
def beginsExpression (word : List Char) : Bool := expressionWords.any (·.toList == word)

/-- Punctuation after which an expression begins. -/
def expressionPunctuation : List Char := "(,=:[!&|?\x7b\x7d;+-*%~^>".toList

namespace Scan

/-- The start of a script. -/
def start (source : List Char) : Scan := ⟨.start source, [], none⟩

/-- The scan at another place of the text. -/
def moveTo (s : Scan) (c : Cursor) : Scan := { s with toCursor := c }

/-- The scan behind a literal. -/
def afterValue (s : Scan) (c : Cursor) : Scan := ⟨c, s.openings, some .value⟩

/-- The scan one character further, the character being its last token unless it is blank. -/
def step (s : Scan) (c : Char) (rest : List Char) : Scan :=
  { s with
    rest := rest
    offset := s.offset + c.utf8Size
    last := if Text.isBlank c then s.last else some (.punctuation c) }

/-- The scan behind an opening bracket. -/
def enter (s : Scan) (bracket : Char) (rest : List Char) : Scan :=
  ⟨⟨rest, s.offset + bracket.utf8Size⟩, ⟨bracket, s.offset⟩ :: s.openings,
    some (.punctuation bracket)⟩

@[simp] theorem rest_moveTo (s : Scan) (c : Cursor) : (s.moveTo c).rest = c.rest := rfl

@[simp] theorem rest_afterValue (s : Scan) (c : Cursor) : (s.afterValue c).rest = c.rest := rfl

@[simp] theorem rest_step (s : Scan) (c : Char) (rest : List Char) : (s.step c rest).rest = rest :=
  rfl

@[simp] theorem rest_enter (s : Scan) (bracket : Char) (rest : List Char) :
    (s.enter bracket rest).rest = rest := rfl

/-- An expression may begin here. -/
def awaitsExpression (s : Scan) : Bool :=
  match s.last with
  | none => true
  | some (.punctuation c) => expressionPunctuation.contains c
  | some (.word letters) => beginsExpression letters
  | some .value => false

/-- A single quotation mark opens a string here; after a name it is an apostrophe. -/
def opensString (s : Scan) : Bool :=
  match s.last with
  | some (.word letters) => beginsExpression letters
  | some .value => false
  | _ => true

/-- A scan with less text ahead. -/
abbrev Ahead (s : Scan) := { t : Scan // t.rest.length < s.rest.length }

/-- What is ahead of a later scan is ahead of an earlier one. -/
def Ahead.lift {s t : Scan} (h : t.rest.length ≤ s.rest.length) (a : Ahead t) : Ahead s :=
  ⟨a.1, Nat.lt_of_lt_of_le a.2 h⟩

/-- The opening of an element stands here: `<` before `>` or a name. -/
def opensElement (next : Option Char) : Bool := next.any fun c => c == '>' || opensName c

end Scan

open Scan

set_option linter.unusedSimpArgs false

mutual

/-- Read code to the bracket that takes the number of open brackets below `base`. -/
def code (base : Option Nat) (s : Scan) : Except Halt (Ahead s) :=
  match h : s.rest with
  | [] => .error (.finished s.openings)
  | c :: rest =>
    have hrest : rest.length < s.rest.length := by simp [h]
    have hmove : (s.moveTo ⟨rest, s.offset + 1⟩).rest.length < s.rest.length := hrest
    let next := rest.head?
    if c = '/' ∧ next = some '/' then
      let t := s.moveTo ((⟨rest, s.offset + 1⟩ : Cursor).skipWhile (· != '\n'))
      have ht : t.rest.length < s.rest.length :=
        Nat.lt_of_le_of_lt (Cursor.length_skipWhile_le _ _) hrest
      (code base t).map (.lift (Nat.le_of_lt ht))
    else if c = '/' ∧ next = some '*' then
      match skipComment ⟨rest.tail, s.offset + 2⟩ with
      | none => .error (.broken ⟨.unterminatedComment, s.offset⟩)
      | some d =>
        have hd : (s.moveTo d.1).rest.length < s.rest.length := by
          have h1 := d.2
          have h2 : rest.tail.length ≤ rest.length := by simp
          exact Nat.lt_of_le_of_lt (Nat.le_trans h1 h2) hrest
        (code base (s.moveTo d.1)).map (.lift (Nat.le_of_lt hd))
    else
      match (if c = '/' ∧ next ≠ some '>' ∧ s.awaitsExpression then
          skipRegex false ⟨rest, s.offset + 1⟩ else none) with
      | some d =>
        have hd : (s.afterValue d.1).rest.length < s.rest.length := Nat.lt_of_le_of_lt d.2 hrest
        (code base (s.afterValue d.1)).map (.lift (Nat.le_of_lt hd))
      | none =>
        if c = '"' ∨ c = '\'' ∧ s.opensString then
          match skipString c ⟨rest, s.offset + 1⟩ with
          | none => .error (.broken ⟨.unterminatedString, s.offset⟩)
          | some d =>
            have hd : (s.afterValue d.1).rest.length < s.rest.length :=
              Nat.lt_of_le_of_lt d.2 hrest
            (code base (s.afterValue d.1)).map (.lift (Nat.le_of_lt hd))
        else if c = '`' then
          match template s.offset (s.moveTo ⟨rest, s.offset + 1⟩) with
          | .error halt => .error halt
          | .ok t =>
            have ht : { t.1 with last := some .value : Scan }.rest.length < s.rest.length :=
              Nat.lt_trans t.2 hrest
            (code base { t.1 with last := some .value }).map (.lift (Nat.le_of_lt ht))
        else
          match (if c = '<' ∧ s.awaitsExpression ∧ opensElement next then
              element (s.moveTo ⟨rest, s.offset + 1⟩) else none) with
          | some t =>
            have ht : { t.1 with last := some .value : Scan }.rest.length < s.rest.length :=
              Nat.lt_trans t.2 hrest
            (code base { t.1 with last := some .value }).map (.lift (Nat.le_of_lt ht))
          | none =>
            if hc : inName c then
              let t : Scan := { s.moveTo (s.toCursor.skipWhile inName) with
                last := some (.word (s.rest.takeWhile inName)) }
              have ht : t.rest.length < s.rest.length := Cursor.length_skipWhile_lt h hc
              (code base t).map (.lift (Nat.le_of_lt ht))
            else if c = '(' ∨ c = '[' ∨ c = '\x7b' then
              (code base (s.enter c rest)).map (.lift (Nat.le_of_lt hrest))
            else if c = ')' ∨ c = ']' ∨ c = '\x7d' then
              match s.openings with
              | [] => .error (.broken ⟨.unexpectedCloser c, s.offset⟩)
              | opening :: outer =>
                if closerOf opening.bracket = c then
                  let t : Scan := ⟨⟨rest, s.offset + 1⟩, outer, some (.punctuation c)⟩
                  if base.any (outer.length < ·) then .ok ⟨t, hrest⟩
                  else (code base t).map (.lift (Nat.le_of_lt hrest))
                else .error (.broken ⟨.unexpectedCloser c, s.offset⟩)
            else (code base (s.step c rest)).map (.lift (Nat.le_of_lt hrest))
termination_by 2 * s.rest.length
decreasing_by all_goals (try simp +zetaDelta only [rest_moveTo, rest_afterValue, rest_step, rest_enter] at *) <;> omega

/-- Read a template that opened at `opened` to its closing backtick. -/
def template (opened : Nat) (s : Scan) : Except Halt (Ahead s) :=
  match h : s.rest with
  | [] => .error (.broken ⟨.unterminatedTemplate, opened⟩)
  | c :: rest =>
    have hrest : rest.length < s.rest.length := by simp [h]
    if c = '\\' then
      let t := s.moveTo ((⟨rest, s.offset + 1⟩ : Cursor).skip 1)
      have ht : t.rest.length < s.rest.length := by
        have h1 := Cursor.length_skip 1 (⟨rest, s.offset + 1⟩ : Cursor)
        have h2 : (⟨rest, s.offset + 1⟩ : Cursor).rest.length = rest.length := rfl
        simp only [t, moveTo]; omega
      (template opened t).map (.lift (Nat.le_of_lt ht))
    else if c = '`' then .ok ⟨s.moveTo ⟨rest, s.offset + 1⟩, hrest⟩
    else if c = '$' ∧ rest.head? = some '\x7b' then
      let inner := (s.moveTo ⟨rest, s.offset + 1⟩).enter '\x7b' rest.tail
      have hi : inner.rest.length < s.rest.length := by
        have h2 : rest.tail.length ≤ rest.length := by simp
        exact Nat.lt_of_le_of_lt h2 hrest
      match code (some inner.openings.length) inner with
      | .error halt => .error halt
      | .ok t =>
        have ht : t.1.rest.length < s.rest.length := Nat.lt_trans t.2 hi
        (template opened t.1).map (.lift (Nat.le_of_lt ht))
    else
      let t := s.moveTo ⟨rest, s.offset + c.utf8Size⟩
      (template opened t).map (.lift (Nat.le_of_lt hrest))
termination_by 2 * s.rest.length
decreasing_by all_goals (try simp +zetaDelta only [rest_moveTo, rest_afterValue, rest_step, rest_enter] at *) <;> omega

/-- Read an element behind its `<`. -/
def element (s : Scan) : Option (Ahead s) :=
  match h : s.rest with
  | '>' :: rest =>
    have hmove : (s.moveTo ⟨rest, s.offset + 1⟩).rest.length < s.rest.length := by
      simp [h, moveTo]
    (children (s.moveTo ⟨rest, s.offset + 1⟩)).map (.lift (Nat.le_of_lt hmove))
  | _ =>
    let t := s.moveTo (s.toCursor.skipWhile inTagName)
    have ht : t.rest.length ≤ s.rest.length := Cursor.length_skipWhile_le _ _
    (attributes t).map (.lift ht)
termination_by 2 * s.rest.length + 1
decreasing_by all_goals (try simp +zetaDelta only [rest_moveTo, rest_afterValue, rest_step, rest_enter] at *) <;> omega

/-- Read the attributes of an element, and what follows them. -/
def attributes (s : Scan) : Option (Ahead s) :=
  let here := s.moveTo (s.toCursor.skipWhile Text.isBlank)
  have hhere : here.rest.length ≤ s.rest.length := Cursor.length_skipWhile_le _ _
  match h : here.rest with
  | [] => none
  | c :: rest =>
    have hrest : rest.length < s.rest.length := by simp only [h, List.length_cons] at hhere; omega
    if c = '/' ∧ rest.head? = some '>' then
      some ⟨here.moveTo ⟨rest.tail, here.offset + 2⟩, by
        have h2 : rest.tail.length ≤ rest.length := by simp
        exact Nat.lt_of_le_of_lt h2 hrest⟩
    else if c = '>' then
      (children (here.moveTo ⟨rest, here.offset + 1⟩)).map (.lift (Nat.le_of_lt hrest))
    else if c = '\x7b' then
      match code (some (here.openings.length + 1)) (here.enter c rest) with
      | .error _ => none
      | .ok t =>
        have ht : t.1.rest.length < s.rest.length := Nat.lt_trans t.2 hrest
        (attributes t.1).map (.lift (Nat.le_of_lt ht))
    else if hc : opensName c then
      let name := here.moveTo
        ((⟨rest, here.offset + c.utf8Size⟩ : Cursor).skipWhile inAttributeName)
      have hname : name.rest.length ≤ rest.length := Cursor.length_skipWhile_le _ _
      let sign := name.moveTo (name.toCursor.skipWhile Text.isBlank)
      have hsign : sign.rest.length ≤ name.rest.length := Cursor.length_skipWhile_le _ _
      if sign.rest.head? = some '=' then
        let value := sign.moveTo ((sign.toCursor.skip 1).skipWhile Text.isBlank)
        have hvalue : value.rest.length ≤ sign.rest.length := by
          have h1 := Cursor.length_skipWhile_le Text.isBlank (sign.toCursor.skip 1)
          have h2 := Cursor.length_skip 1 sign.toCursor
          simp only [value, moveTo]; omega
        match hv : value.rest with
        | [] => none
        | v :: inside =>
          have hinside : inside.length < s.rest.length := by
            simp only [hv, List.length_cons] at hvalue; omega
          if v = '"' ∨ v = '\'' then
            let close := (⟨inside, value.offset + 1⟩ : Cursor).skipWhile (· != v)
            have hclose : close.rest.length ≤ inside.length := Cursor.length_skipWhile_le _ _
            if close.rest.isEmpty then none
            else
              let t := value.moveTo (close.skip 1)
              have ht : t.rest.length < s.rest.length := by
                have := Cursor.length_skip 1 close
                simp only [t, moveTo]; omega
              (attributes t).map (.lift (Nat.le_of_lt ht))
          else if v = '\x7b' then
            match code (some (value.openings.length + 1)) (value.enter v inside) with
            | .error _ => none
            | .ok t =>
              have ht : t.1.rest.length < s.rest.length := Nat.lt_trans t.2 hinside
              (attributes t.1).map (.lift (Nat.le_of_lt ht))
          else if v = '<' then
            have hmove : (value.moveTo ⟨inside, value.offset + 1⟩).rest.length < s.rest.length :=
              hinside
            match element (value.moveTo ⟨inside, value.offset + 1⟩) with
            | none => none
            | some t =>
              have ht : t.1.rest.length < s.rest.length := Nat.lt_trans t.2 hinside
              (attributes t.1).map (.lift (Nat.le_of_lt ht))
          else none
      else
        have ht : sign.rest.length < s.rest.length := by omega
        (attributes sign).map (.lift (Nat.le_of_lt ht))
    else none
termination_by 2 * s.rest.length
decreasing_by all_goals (try simp +zetaDelta only [rest_moveTo, rest_afterValue, rest_step, rest_enter] at *) <;> omega

/-- Read text and elements to the closing tag around them. -/
def children (s : Scan) : Option (Ahead s) :=
  match h : s.rest with
  | [] => none
  | c :: rest =>
    have hrest : rest.length < s.rest.length := by simp [h]
    if c = '\x7b' then
      match code (some (s.openings.length + 1)) (s.enter c rest) with
      | .error _ => none
      | .ok t =>
        have ht : t.1.rest.length < s.rest.length := Nat.lt_trans t.2 hrest
        (children t.1).map (.lift (Nat.le_of_lt ht))
    else if c = '<' then
      if rest.head? = some '/' then
        let close := s.toCursor.skipWhile (· != '>')
        have hclose : close.rest.length ≤ s.rest.length := Cursor.length_skipWhile_le _ _
        if hempty : close.rest = [] then none
        else some ⟨s.moveTo (close.skip 1), by
          have hskip := Cursor.length_skip 1 close
          have hpos := List.length_pos_iff.2 hempty
          simp only [moveTo]; omega⟩
      else if opensElement rest.head? then
        have hmove : (s.moveTo ⟨rest, s.offset + 1⟩).rest.length < s.rest.length := hrest
        match element (s.moveTo ⟨rest, s.offset + 1⟩) with
        | none => none
        | some t =>
          have ht : t.1.rest.length < s.rest.length := Nat.lt_trans t.2 hrest
          (children t.1).map (.lift (Nat.le_of_lt ht))
      else none
    else
      (children (s.moveTo ⟨rest, s.offset + c.utf8Size⟩)).map (.lift (Nat.le_of_lt hrest))
termination_by 2 * s.rest.length
decreasing_by all_goals (try simp +zetaDelta only [rest_moveTo, rest_afterValue, rest_step, rest_enter] at *) <;> omega

end

/-- The first problem with the structure of a script. At the end of the text the innermost bracket
that is still open is one. -/
def structureIssue? (source : List Char) : Option Issue :=
  match code none (.start source) with
  | .ok _ => none
  | .error (.broken issue) => some issue
  | .error (.finished []) => none
  | .error (.finished (opening :: _)) =>
    let line := ((Text.placeAt? source opening.offset).map Text.Place.line).getD 0
    some ⟨.unclosed opening.bracket line, Text.byteLength source⟩

end LivePreview.Script
