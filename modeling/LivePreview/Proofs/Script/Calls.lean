import LivePreview.Proofs.Script.Balance

namespace LivePreview.Script

open Text (Cursor)
open Scan

-- Readers that may not come to an end: each has a result or none yet.
structure Readers where
  code : Option Nat → Scan → Option (Except Halt Scan)
  template : Nat → Scan → Option (Except Halt Scan)
  element : Scan → Option (Option Scan)
  attributes : Scan → Option (Option Scan)
  children : Scan → Option (Option Scan)

namespace Readers

variable (r : Readers)

-- Behind a part that another reader has read, an element fails with the part.
def andThen (next : Scan → Option (Option Scan)) : Option Scan → Option (Option Scan)
  | none => some none
  | some t => next t

def braces (next : Scan → Option (Option Scan)) (s : Scan) (rest : List Char) :
    Option (Option Scan) :=
  (r.code (some (s.openings.length + 1)) (s.enter '\x7b' rest)).bind (andThen next ·.toOption)

def inner (next : Scan → Option (Option Scan)) (s : Scan) (rest : List Char) :
    Option (Option Scan) :=
  (r.element (s.moveTo ⟨rest, s.offset + 1⟩)).bind (andThen next)

def wordTurn (base : Option Nat) (s : Scan) (c : Char) (rest : List Char) :
    Option (Except Halt Scan) :=
  if inName c then
    r.code base { s.moveTo (s.toCursor.skipWhile inName) with
      last := some (.word (s.rest.takeWhile inName)) }
  else if c = '(' ∨ c = '[' ∨ c = '\x7b' then r.code base (s.enter c rest)
  else if c = ')' ∨ c = ']' ∨ c = '\x7d' then
    match s.openings with
    | [] => some (.error (.broken ⟨.unexpectedCloser c, s.offset⟩))
    | opening :: outer =>
      if closerOf opening.bracket = c then
        let t : Scan := ⟨⟨rest, s.offset + 1⟩, outer, some (.punctuation c)⟩
        if base.any (outer.length < ·) then some (.ok t) else r.code base t
      else some (.error (.broken ⟨.unexpectedCloser c, s.offset⟩))
  else r.code base (s.step c rest)

-- An element that fails is given up, and reading goes on behind its `<`.
def tokenTurn (base : Option Nat) (s : Scan) (c : Char) (rest : List Char) :
    Option (Except Halt Scan) :=
  if c = '"' ∨ c = '\'' ∧ s.opensString then
    match skipString c ⟨rest, s.offset + 1⟩ with
    | none => some (.error (.broken ⟨.unterminatedString, s.offset⟩))
    | some d => r.code base (s.afterValue d.1)
  else if c = '`' then
    (r.template s.offset (s.moveTo ⟨rest, s.offset + 1⟩)).bind fun
      | .error halt => some (.error halt)
      | .ok t => r.code base { t with last := some .value }
  else if c = '<' ∧ s.awaitsExpression ∧ opensElement rest.head? then
    (r.element (s.moveTo ⟨rest, s.offset + 1⟩)).bind fun
      | none => r.code base (s.step '<' rest)
      | some t => r.code base { t with last := some .value }
  else r.wordTurn base s c rest

def codeTurn (base : Option Nat) (s : Scan) : List Char → Option (Except Halt Scan)
  | [] => some (.error (.finished s.openings))
  | c :: rest =>
    if c = '/' ∧ rest.head? = some '/' then
      r.code base (s.moveTo ((⟨rest, s.offset + 1⟩ : Cursor).skipWhile (· != '\n')))
    else if c = '/' ∧ rest.head? = some '*' then
      match skipComment ⟨rest.tail, s.offset + 2⟩ with
      | none => some (.error (.broken ⟨.unterminatedComment, s.offset⟩))
      | some d => r.code base (s.moveTo d.1)
    else
      match (if c = '/' ∧ rest.head? ≠ some '>' ∧ s.awaitsExpression then
          skipRegex false ⟨rest, s.offset + 1⟩ else none) with
      | some d => r.code base (s.afterValue d.1)
      | none => r.tokenTurn base s c rest

def templateTurn (opened : Nat) (s : Scan) : List Char → Option (Except Halt Scan)
  | [] => some (.error (.broken ⟨.unterminatedTemplate, opened⟩))
  | c :: rest =>
    if c = '\\' then r.template opened (s.moveTo ((⟨rest, s.offset + 1⟩ : Cursor).skip 1))
    else if c = '`' then some (.ok (s.moveTo ⟨rest, s.offset + 1⟩))
    else if c = '$' ∧ rest.head? = some '\x7b' then
      let inside := (s.moveTo ⟨rest, s.offset + 1⟩).enter '\x7b' rest.tail
      (r.code (some inside.openings.length) inside).bind fun
        | .error halt => some (.error halt)
        | .ok t => r.template opened t
    else r.template opened (s.moveTo ⟨rest, s.offset + c.utf8Size⟩)

def elementTurn (s : Scan) : Option (Option Scan) :=
  if s.rest.head? = some '>' then r.children (s.moveTo ⟨s.rest.tail, s.offset + 1⟩)
  else r.attributes (s.moveTo (s.toCursor.skipWhile inTagName))

def valueTurn (s : Scan) : List Char → Option (Option Scan)
  | [] => some none
  | v :: inside =>
    if v = '"' ∨ v = '\'' then
      let close := (⟨inside, s.offset + 1⟩ : Cursor).skipWhile (· != v)
      if close.rest.isEmpty then some none else r.attributes (s.moveTo (close.skip 1))
    else if v = '\x7b' then r.braces r.attributes s inside
    else if v = '<' then r.inner r.attributes s inside
    else some none

def attributesTurn (s : Scan) : List Char → Option (Option Scan)
  | [] => some none
  | c :: rest =>
    if c = '/' ∧ rest.head? = some '>' then some (some (s.moveTo ⟨rest.tail, s.offset + 2⟩))
    else if c = '>' then r.children (s.moveTo ⟨rest, s.offset + 1⟩)
    else if c = '\x7b' then r.braces r.attributes s rest
    else if opensName c then
      let name := s.moveTo ((⟨rest, s.offset + c.utf8Size⟩ : Cursor).skipWhile inAttributeName)
      let sign := name.moveTo (name.toCursor.skipWhile Text.isBlank)
      if sign.rest.head? = some '=' then
        let value := sign.moveTo ((sign.toCursor.skip 1).skipWhile Text.isBlank)
        r.valueTurn value value.rest
      else r.attributes sign
    else some none

def childrenTurn (s : Scan) : List Char → Option (Option Scan)
  | [] => some none
  | c :: rest =>
    if c = '\x7b' then r.braces r.children s rest
    else if c = '<' then
      if rest.head? = some '/' then
        let close := s.toCursor.skipWhile (· != '>')
        if close.rest = [] then some none else some (some (s.moveTo (close.skip 1)))
      else if opensElement rest.head? then r.inner r.children s rest
      else some none
    else r.children (s.moveTo ⟨rest, s.offset + c.utf8Size⟩)

-- The readers that make one turn and leave what follows it to others.
def turn : Readers where
  code base s := r.codeTurn base s s.rest
  template opened s := r.templateTurn opened s s.rest
  element s := r.elementTurn s
  attributes s :=
    let here := s.moveTo (s.toCursor.skipWhile Text.isBlank)
    r.attributesTurn here here.rest
  children s := r.childrenTurn s s.rest

end Readers

-- The scan behind the blanks ahead; behind the name of an attribute with the blanks that follow;
-- and behind a sign that follows them.

def Scan.pastBlanks (s : Scan) : Scan := s.moveTo (s.toCursor.skipWhile Text.isBlank)

def Scan.pastName (s : Scan) (c : Char) (rest : List Char) : Scan :=
  (s.moveTo ((⟨rest, s.offset + c.utf8Size⟩ : Cursor).skipWhile inAttributeName)).pastBlanks

def Scan.pastSign (s : Scan) (c : Char) (rest : List Char) : Scan :=
  let sign := s.pastName c rest
  sign.moveTo ((sign.toCursor.skip 1).skipWhile Text.isBlank)

-- A call of a reader.
inductive Call where
  | code (base : Option Nat) (s : Scan)
  | template (opened : Nat) (s : Scan)
  | element (s : Scan)
  | attributes (s : Scan)
  | children (s : Scan)

namespace Call

def scan : Call → Scan
  | code _ s | template _ s | element s | attributes s | children s => s

-- What ends the reading: it is less for each call that a call makes.
def measure : Call → Nat
  | element s => 2 * s.rest.length + 1
  | call => 2 * call.scan.rest.length

-- A part of markup that another reader takes over: code in braces, or an element.
inductive Part (s : Scan) : Call → Prop
  | braces {rest : List Char} (h : s.rest = '\x7b' :: rest) :
      Part s (code (some (s.openings.length + 1)) (s.enter '\x7b' rest))
  | element {rest : List Char} (h : s.rest = '<' :: rest) :
      Part s (element (s.moveTo ⟨rest, s.offset + 1⟩))

-- The calls that a call makes: those of the readers of what is inside, and that of its next turn.
inductive Makes : Call → Call → Prop
  | code {base : Option Nat} {s t : Scan} (h : codeMove base s s.rest = .on t) :
      Makes (code base s) (code base t)
  | backtick {base : Option Nat} {s : Scan} {rest : List Char} (h : s.rest = '`' :: rest) :
      Makes (code base s) (template s.offset (s.moveTo ⟨rest, s.offset + 1⟩))
  | trial {base : Option Nat} {s : Scan} {rest : List Char} (h : s.rest = '<' :: rest)
      (hawaits : s.awaitsExpression = true) (hopens : opensElement rest.head? = true) :
      Makes (code base s) (element (s.moveTo ⟨rest, s.offset + 1⟩))
  | template {opened : Nat} {s t : Scan} (h : templateMove opened s s.rest = .on t) :
      Makes (template opened s) (template opened t)
  | placeholder {opened : Nat} {s : Scan} {rest : List Char} (h : s.rest = '$' :: '\x7b' :: rest) :
      Makes (template opened s) (code (some (s.openings.length + 1))
        ((s.moveTo ⟨'\x7b' :: rest, s.offset + 1⟩).enter '\x7b' rest))
  | fragment {s : Scan} {rest : List Char} (h : s.rest = '>' :: rest) :
      Makes (element s) (children (s.moveTo ⟨rest, s.offset + 1⟩))
  | tag {s : Scan} (h : s.rest.head? ≠ some '>') :
      Makes (element s) (attributes (s.moveTo (s.toCursor.skipWhile inTagName)))
  | attributes {s t : Scan} (h : attributesMove s.pastBlanks s.pastBlanks.rest = .on t) :
      Makes (attributes s) (attributes t)
  | content {s : Scan} {rest : List Char} (h : s.pastBlanks.rest = '>' :: rest) :
      Makes (attributes s) (children (s.pastBlanks.moveTo ⟨rest, s.pastBlanks.offset + 1⟩))
  | spread {s : Scan} {rest : List Char} (h : s.pastBlanks.rest = '\x7b' :: rest) :
      Makes (attributes s) (code (some (s.openings.length + 1)) (s.pastBlanks.enter '\x7b' rest))
  | value {s : Scan} {c : Char} {rest : List Char} {call : Call}
      (h : s.pastBlanks.rest = c :: rest) (hname : opensName c = true)
      (hsign : (s.pastBlanks.pastName c rest).rest.head? = some '=')
      (hpart : Part (s.pastBlanks.pastSign c rest) call) : Makes (attributes s) call
  | children {s t : Scan} (h : childrenMove s s.rest = .on t) : Makes (children s) (children t)
  | child {s : Scan} {call : Call} (h : Part s call)
      (hopens : ∀ rest, s.rest = '<' :: rest → opensElement rest.head? = true) :
      Makes (children s) call

section Measure

variable {s : Scan} {call call' : Call}

theorem Part.measure_lt (h : Part s call) : call.measure < 2 * s.rest.length := by
  cases h with
  | braces h =>
      simp only [measure, scan, rest_enter, h, List.length_cons]
      omega
  | element h =>
      simp only [measure, rest_moveTo, h, List.length_cons]
      omega

theorem length_pastBlanks_le (s : Scan) : s.pastBlanks.rest.length ≤ s.rest.length :=
  Cursor.length_skipWhile_le _ _

theorem length_pastSign_le (s : Scan) (c : Char) (rest : List Char) :
    (s.pastSign c rest).rest.length ≤ rest.length := by
  have hskip := Cursor.length_skip 1 (s.pastName c rest).toCursor
  have hblanks := Cursor.length_skipWhile_le Text.isBlank ((s.pastName c rest).toCursor.skip 1)
  have hname : (s.pastName c rest).rest.length ≤ rest.length :=
    Nat.le_trans (length_pastBlanks_le _) (Cursor.length_skipWhile_le _ _)
  simp only [pastSign, rest_moveTo]
  omega

theorem Makes.measure_lt (h : Makes call call') : call'.measure < call.measure := by
  cases h with
  | code h =>
      have hlength := ((codeTurn (fun u _ => keeps u) _).of_on h).1
      simp only [measure, scan]
      omega
  | backtick h => simp [measure, scan, h]
  | trial h =>
      simp only [measure, scan, rest_moveTo, h, List.length_cons]
      omega
  | template h =>
      have hlength := (turn_templateMove (fun u _ => keeps u) _).length_of_on h
      simp only [measure, scan]
      omega
  | placeholder h =>
      simp only [measure, scan, rest_enter, h, List.length_cons]
      omega
  | fragment h =>
      simp only [measure, scan, rest_moveTo, h, List.length_cons]
      omega
  | @tag s h =>
      have hlength := Cursor.length_skipWhile_le inTagName s.toCursor
      simp only [measure, scan, rest_moveTo]
      omega
  | @attributes s t h =>
      have hlength := (turn_attributesMove fun u _ => keeps u).length_of_on h
      have hblanks := length_pastBlanks_le s
      simp only [measure, scan]
      omega
  | @content s rest h =>
      have hblanks := length_pastBlanks_le s
      simp only [h, List.length_cons] at hblanks
      simp only [measure, scan, rest_moveTo]
      omega
  | @spread s rest h =>
      have hblanks := length_pastBlanks_le s
      simp only [h, List.length_cons] at hblanks
      simp only [measure, scan, rest_enter]
      omega
  | @value s c rest call h _ _ hpart =>
      have hblanks := length_pastBlanks_le s
      simp only [h, List.length_cons] at hblanks
      have hsign := length_pastSign_le s.pastBlanks c rest
      have hlength := hpart.measure_lt
      change call'.measure < 2 * s.rest.length
      omega
  | children h =>
      have hlength := (turn_childrenMove fun u _ => keeps u).length_of_on h
      simp only [measure, scan]
      omega
  | child h => exact h.measure_lt

end Measure

end Call

-- What a turn comes to where others are asked for what follows it.
def Move.ask {α : Type} (next : Scan → Option α) : Move α → Option α
  | on t => next t
  | done result => some result

theorem Move.ask_eq {α : Type} {next : Scan → Option α} {read : Scan → α} {move : Move α}
    (h : ∀ t, move = .on t → next t = some (read t)) :
    move.ask next = some (move.resume read) := by
  cases move with
  | on t => exact h t rfl
  | done result => rfl

namespace Readers

variable {r : Readers}

-- The readers come to what reading comes to in the call.
def Knows (r : Readers) : Call → Prop
  | .code base s => r.code base s = some (readCode base s)
  | .template opened s => r.template opened s = some (readTemplate opened s)
  | .element s => r.element s = some (readElement s)
  | .attributes s => r.attributes s = some (readAttributes s)
  | .children s => r.children s = some (readChildren s)

section Turns

variable {s : Scan}

theorem braces_eq_ask {next : Scan → Option (Option Scan)} {rest : List Char}
    (h : r.Knows (.code (some (s.openings.length + 1)) (s.enter '\x7b' rest))) :
    r.braces next s rest = (bracesMove s rest).ask next := by
  rw [braces, h, bracesMove]
  cases readCode (some (s.openings.length + 1)) (s.enter '\x7b' rest) <;> rfl

theorem inner_eq_ask {next : Scan → Option (Option Scan)} {rest : List Char}
    (h : r.Knows (.element (s.moveTo ⟨rest, s.offset + 1⟩))) :
    r.inner next s rest = (elementMove s rest).ask next := by
  rw [inner, h, elementMove]
  cases readElement (s.moveTo ⟨rest, s.offset + 1⟩) <;> rfl

theorem wordTurn_eq_ask (base : Option Nat) (c : Char) (rest : List Char) :
    r.wordTurn base s c rest =
      (if inName c then .on { s.moveTo (s.toCursor.skipWhile inName) with
          last := some (.word (s.rest.takeWhile inName)) }
        else bracketMove base s c rest : Move (Except Halt Scan)).ask (r.code base) := by
  unfold wordTurn bracketMove
  split
  · rfl
  split
  · rfl
  split
  · cases s.openings with
    | nil => rfl
    | cons opening outer =>
        dsimp only
        split
        · split <;> rfl
        · rfl
  · rfl

theorem tokenTurn_eq_ask {base : Option Nat} {c : Char} {rest : List Char}
    (h : ∀ call, Call.Makes (.code base s) call → r.Knows call) (hrest : s.rest = c :: rest) :
    r.tokenTurn base s c rest = (tokenMove base s c rest).ask (r.code base) := by
  unfold tokenTurn tokenMove
  split
  · cases skipString c ⟨rest, s.offset + 1⟩ <;> rfl
  split
  · rename_i hc
    subst hc
    have htemplate : r.Knows _ := h _ (.backtick hrest)
    rw [htemplate]
    cases readTemplate s.offset (s.moveTo ⟨rest, s.offset + 1⟩) <;> rfl
  by_cases hopens : c = '<' ∧ s.awaitsExpression = true ∧ opensElement rest.head? = true
  · rw [if_pos hopens, if_pos hopens]
    obtain ⟨rfl, hawaits, hopens⟩ := hopens
    have helement : r.Knows _ := h _ (.trial hrest hawaits hopens)
    rw [helement]
    cases readElement (s.moveTo ⟨rest, s.offset + 1⟩) <;> rfl
  · rw [if_neg hopens, if_neg hopens]
    exact wordTurn_eq_ask base c rest

theorem codeTurn_eq_ask {base : Option Nat}
    (h : ∀ call, Call.Makes (.code base s) call → r.Knows call) :
    r.codeTurn base s s.rest = (codeMove base s s.rest).ask (r.code base) := by
  cases hrest : s.rest with
  | nil => rfl
  | cons c rest =>
      dsimp only [codeTurn, codeMove]
      split
      · rfl
      split
      · cases skipComment ⟨rest.tail, s.offset + 2⟩ <;> rfl
      cases (if c = '/' ∧ rest.head? ≠ some '>' ∧ s.awaitsExpression then
          skipRegex false ⟨rest, s.offset + 1⟩ else none) with
      | some d => rfl
      | none => exact tokenTurn_eq_ask h hrest

theorem templateTurn_eq_ask {opened : Nat}
    (h : ∀ call, Call.Makes (.template opened s) call → r.Knows call) :
    r.templateTurn opened s s.rest = (templateMove opened s s.rest).ask (r.template opened) := by
  cases hrest : s.rest with
  | nil => rfl
  | cons c rest =>
      rw [templateTurn, templateMove]
      extract_lets inner
      split
      · rfl
      split
      · rfl
      split
      · rename_i hc
        obtain ⟨rfl, hbrace⟩ := hc
        obtain ⟨inside, rfl⟩ := List.head?_eq_some_iff.mp hbrace
        have hcode : r.Knows (.code (some inner.openings.length) inner) := h _ (.placeholder hrest)
        rw [hcode]
        cases readCode (some inner.openings.length) inner <;> rfl
      · rfl

theorem childrenTurn_eq_ask (h : ∀ call, Call.Makes (.children s) call → r.Knows call) :
    r.childrenTurn s s.rest = (childrenMove s s.rest).ask r.children := by
  cases hrest : s.rest with
  | nil => rfl
  | cons c rest =>
      dsimp only [childrenTurn, childrenMove]
      split
      · rename_i hc
        subst hc
        exact braces_eq_ask (h _ (.child (.braces hrest) (by simp [hrest])))
      split
      · rename_i hc
        subst hc
        split
        · split <;> rfl
        split
        · rename_i hopens
          exact inner_eq_ask (h _ (.child (.element hrest) (by simp [hrest, hopens])))
        · rfl
      · rfl

theorem valueTurn_eq_ask (h : ∀ call, Call.Part s call → r.Knows call) :
    r.valueTurn s s.rest = (valueMove s s.rest).ask r.attributes := by
  cases hrest : s.rest with
  | nil => rfl
  | cons v inside =>
      rw [valueMove, valueTurn]
      extract_lets close
      split
      · split <;> rfl
      split
      · rename_i hv
        subst hv
        exact braces_eq_ask (h _ (.braces hrest))
      split
      · rename_i hv
        subst hv
        exact inner_eq_ask (h _ (.element hrest))
      · rfl

theorem attributesTurn_eq_ask (h : ∀ call, Call.Makes (.attributes s) call → r.Knows call) :
    r.attributesTurn s.pastBlanks s.pastBlanks.rest =
      (attributesMove s.pastBlanks s.pastBlanks.rest).ask r.attributes := by
  cases hrest : s.pastBlanks.rest with
  | nil => rfl
  | cons c rest =>
      rw [attributesMove, attributesTurn]
      extract_lets name sign value
      split
      · rfl
      split
      · rename_i hc
        subst hc
        exact h _ (.content hrest)
      split
      · rename_i hc
        subst hc
        exact braces_eq_ask (h _ (.spread hrest))
      split
      · rename_i hname
        split
        · rename_i hsign
          exact valueTurn_eq_ask fun call hpart => h _ (.value hrest hname hsign hpart)
        · rfl
      · rfl

end Turns

-- A turn comes to what reading comes to, if the readers do so in the calls that it makes.
theorem knows_turn {call : Call} (h : ∀ call', call.Makes call' → r.Knows call') :
    r.turn.Knows call := by
  cases call with
  | code base s =>
      change r.codeTurn base s s.rest = _
      rw [codeTurn_eq_ask h, readCode_eq]
      exact Move.ask_eq fun t ht => h _ (.code ht)
  | template opened s =>
      change r.templateTurn opened s s.rest = _
      rw [templateTurn_eq_ask h, readTemplate_eq]
      exact Move.ask_eq fun t ht => h _ (.template ht)
  | element s =>
      change r.elementTurn s = _
      rw [readElement_eq]
      unfold elementTurn
      split
      · rename_i hhead
        exact h _ (.fragment (List.eq_cons_of_mem_head? hhead))
      · rename_i hhead
        exact h _ (.tag hhead)
  | attributes s =>
      change r.attributesTurn s.pastBlanks s.pastBlanks.rest = _
      rw [attributesTurn_eq_ask h, readAttributes_eq]
      exact Move.ask_eq fun t ht => h _ (.attributes ht)
  | children s =>
      change r.childrenTurn s s.rest = _
      rw [childrenTurn_eq_ask h, readChildren_eq]
      exact Move.ask_eq fun t ht => h _ (.children ht)

end Readers

end LivePreview.Script
